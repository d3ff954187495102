import ChunkScaledDotKkt.Harness.Validation
import Mathlib.Algebra.Order.Field.Basic
import Mathlib.Algebra.Order.Ring.Rat
import Mathlib.Data.Rat.Cast.Order
import Mathlib.Tactic.NormNum

/-!
# The verdict on an output

`UpdateCheckStats` compares one element with its expected value and keeps counts; a
validator accepts an output when its comparisons end without a mismatch.  The messages that
it prints are left out, apart from their number.

## Main results

* `runChecks_counts` — the counts after any list of comparisons.
* `validation_verdict` — the full validator compares each element of the output once, and
  accepts exactly the outputs whose elements all match; the sampled one does so for its
  rows.
-/

namespace ChunkScaledDotKkt.Harness

open MachineInt IntervalChain

/-- Single-precision operations that the comparison uses besides. -/
structure CheckFloat (F : Type) extends HostFloat F where
  isFinite : F → Bool
  infinity : F
  abs : F → F
  max : F → F → F
  div : F → F → F
  le : F → F → Bool

def kAbsTolerance : ℚ := 1 / 1000000
def kRelTolerance : ℚ := 1 / 100000

/-- Exact arithmetic, with any exponential and any encoding. -/
def exactFloat {F : Type} [Field F] [LinearOrder F] (exp : F → F) (bits : F → ℕ) (ofBits : ℕ → F) :
    CheckFloat F where
  ofInt n := n
  lit q := q
  add a b := a + b
  sub a b := a - b
  mul a b := a * b
  lt a b := a < b
  exp := exp
  bits := bits
  ofBits := ofBits
  isFinite _ := true
  infinity := 0
  abs a := |a|
  max a b := a ⊔ b
  div a b := a / b
  le a b := a ≤ b

/-- What the validators count. -/
structure CheckStats (F : Type) where
  total : ℕ
  mismatch : ℕ
  paddingMismatch : ℕ
  nonFinite : ℕ
  maxAbs : F
  maxRel : F
  maxHead : ℤ
  maxToken : ℤ
  maxLocalJ : ℤ
  /-- The counter of messages beside the statistics. -/
  printed : ℕ

section

variable {F : Type} (fl : CheckFloat F)

/-- `ValuesMatch`, with the two errors that it returns. -/
def valuesMatch (actual expected : F) : Bool × F × F :=
  if !fl.isFinite actual then (false, fl.infinity, fl.infinity)
  else
    let absError := fl.abs (fl.sub actual expected)
    let relError := fl.div absError (fl.max (fl.abs expected) (fl.lit (1 / 10 ^ 30)))
    (fl.le absError (fl.lit kAbsTolerance) || fl.le relError (fl.lit kRelTolerance),
      absError, relError)

def CheckStats.init : CheckStats F := ⟨0, 0, 0, 0, fl.lit 0, fl.lit 0, 0, 0, 0, 0⟩

/-- The counter of values that are not finite. -/
def CheckStats.noteNonFinite (stats : CheckStats F) (actual : F) : CheckStats F :=
  if !fl.isFinite actual then { stats with nonFinite := stats.nonFinite + 1 } else stats

/-- The largest error so far, and where it is. -/
def CheckStats.noteError (stats : CheckStats F) (absError relError : F) (check : OutputCheck F) :
    CheckStats F :=
  if fl.lt stats.maxAbs absError then
    { stats with
      maxAbs := absError
      maxRel := relError
      maxHead := check.head
      maxToken := check.token
      maxLocalJ := check.localJ }
  else stats

/-- A mismatch, printed while there are fewer than eight. -/
def CheckStats.noteMismatch (stats : CheckStats F) (padding : Bool) : CheckStats F :=
  { stats with
    mismatch := stats.mismatch + 1
    paddingMismatch := if padding then stats.paddingMismatch + 1 else stats.paddingMismatch
    printed := if stats.printed < 8 then stats.printed + 1 else stats.printed }

def updateCheckStats (stats : CheckStats F) (actual : F) (check : OutputCheck F) : CheckStats F :=
  let stats := { stats with total := stats.total + 1 }
  let (isMatch, absError, relError) := valuesMatch fl actual check.expected
  let stats := stats.noteNonFinite fl actual
  let stats := stats.noteError fl absError relError check
  if isMatch then stats else stats.noteMismatch check.padding

/-- All comparisons of a validator with an output. -/
def runChecks (actual : ℤ → F) (checks : List (OutputCheck F)) : CheckStats F :=
  checks.foldl (fun stats check => updateCheckStats fl stats (actual check.index) check) (.init fl)

variable (tc : TestCase) (inputs : HostInputs F)

/-- What `ValidateFullOutput` returns. -/
def fullOutputPasses (actual : ℤ → F) : Option Bool := do
  let checks ← validateFullOutput fl.toHostFloat tc inputs
  return (runChecks fl actual checks).mismatch = 0

/-- What `ValidateSampledOutput` returns. -/
def sampledOutputPasses (fuel : ℕ) (sampledRows : ℤ) (actual : ℤ → F) : Option Bool :=
  if sampledRows ≤ 0 then some true
  else do
    let rows ← buildSampleRows tc fuel sampledRows
    let checks ← validateSampledOutput fl.toHostFloat tc inputs rows
    return (runChecks fl actual checks).mismatch = 0

end

/-- An exact value matches itself. -/
theorem valuesMatch_self {F : Type} [Field F] [LinearOrder F] [IsStrictOrderedRing F]
    (exp : F → F) (bits : F → ℕ) (ofBits : ℕ → F) (v : F) :
    (valuesMatch (exactFloat exp bits ofBits) v v).1 = true := by
  have habs : (0 : F) ≤ ((kAbsTolerance : ℚ) : F) :=
    Rat.cast_nonneg.mpr (by norm_num [kAbsTolerance])
  simp [valuesMatch, exactFloat, habs]

variable {F : Type} {fl : CheckFloat F} {tc : TestCase} {inputs : HostInputs F} {actual : ℤ → F}

/-! ## Counts -/

/-- The comparison finds a match. -/
def OutputCheck.matches (fl : CheckFloat F) (actual : ℤ → F) (check : OutputCheck F) : Bool :=
  (valuesMatch fl (actual check.index) check.expected).1

/-- The statistics count the comparisons. -/
structure CheckStats.Counts (fl : CheckFloat F) (actual : ℤ → F) (checks : List (OutputCheck F))
    (stats : CheckStats F) : Prop where
  total : stats.total = checks.length
  mismatch : stats.mismatch = checks.countP fun check => !check.matches fl actual
  paddingMismatch : stats.paddingMismatch =
    checks.countP fun check => check.padding && !check.matches fl actual
  nonFinite : stats.nonFinite = checks.countP fun check => !fl.isFinite (actual check.index)
  printed : stats.printed = min 8 stats.mismatch

section

variable (stats : CheckStats F) (check : OutputCheck F)

/-- The largest error is no count. -/
theorem CheckStats.noteError_counts (absError relError : F) :
    let next := stats.noteError fl absError relError check
    next.total = stats.total ∧ next.mismatch = stats.mismatch ∧
      next.paddingMismatch = stats.paddingMismatch ∧ next.nonFinite = stats.nonFinite ∧
      next.printed = stats.printed := by
  unfold CheckStats.noteError
  split_ifs <;> exact ⟨rfl, rfl, rfl, rfl, rfl⟩

theorem CheckStats.noteNonFinite_counts (v : F) :
    let next := stats.noteNonFinite fl v
    next.total = stats.total ∧ next.mismatch = stats.mismatch ∧
      next.paddingMismatch = stats.paddingMismatch ∧
      next.nonFinite = stats.nonFinite + (if !fl.isFinite v then 1 else 0) ∧
      next.printed = stats.printed := by
  unfold CheckStats.noteNonFinite
  split_ifs <;> exact ⟨rfl, rfl, rfl, rfl, rfl⟩

/-- What one comparison adds to each count. -/
theorem updateCheckStats_counts :
    let next := updateCheckStats fl stats (actual check.index) check
    let missed := !check.matches fl actual
    next.total = stats.total + 1 ∧
      next.mismatch = stats.mismatch + (if missed then 1 else 0) ∧
      next.paddingMismatch = stats.paddingMismatch + (if check.padding && missed then 1 else 0) ∧
      next.nonFinite = stats.nonFinite + (if !fl.isFinite (actual check.index) then 1 else 0) ∧
      next.printed = stats.printed + (if missed && decide (stats.printed < 8) then 1 else 0) := by
  unfold updateCheckStats OutputCheck.matches
  generalize valuesMatch fl (actual check.index) check.expected = v
  obtain ⟨isMatch, absError, relError⟩ := v
  simp only
  cases isMatch with
  | true => simp [CheckStats.noteError_counts, CheckStats.noteNonFinite_counts]
  | false =>
      simp only [CheckStats.noteMismatch, CheckStats.noteError_counts,
        CheckStats.noteNonFinite_counts]
      cases check.padding <;> simp <;> split_ifs <;> rfl

end

/-- One more comparison. -/
theorem CheckStats.Counts.update {checks : List (OutputCheck F)} {stats : CheckStats F}
    (h : stats.Counts fl actual checks) (check : OutputCheck F) :
    (updateCheckStats fl stats (actual check.index) check).Counts fl actual
      (checks ++ [check]) := by
  have hcounts := @updateCheckStats_counts _ fl actual stats check
  obtain ⟨total, mismatch, paddingMismatch, nonFinite, printed⟩ := hcounts
  constructor
  · simp [total, h.total]
  · simp [mismatch, h.mismatch, List.countP_singleton]
  · simp [paddingMismatch, h.paddingMismatch, List.countP_singleton]
  · simp [nonFinite, h.nonFinite, List.countP_singleton]
  · rw [printed, mismatch, h.printed]
    cases check.matches fl actual with
    | true => simp
    | false =>
        simp only [Bool.not_false, Bool.true_and, decide_eq_true_eq, if_true]
        split_ifs <;> omega

/-- **The counts after any list of comparisons.** -/
theorem runChecks_counts (checks : List (OutputCheck F)) :
    (runChecks fl actual checks).Counts fl actual checks := by
  induction checks using List.reverseRecOn with
  | nil => exact ⟨rfl, rfl, rfl, rfl, rfl⟩
  | append_singleton checks check ih =>
      rw [runChecks, List.foldl_append]
      exact ih.update check

/-! ## The comparisons of an output -/

section

variable (fl tc inputs)

/-- The comparison of one element. -/
def elementCheck (head token localJ : ℤ) : OutputCheck F where
  index := (head * tc.t + token) * kChunkSize + localJ
  expected := computeExpectedAt fl.toHostFloat tc inputs head token localJ
  head := head
  token := token
  localJ := localJ
  padding :=
    let chunk := tc.findChunkIndex token
    tc.chunkOffsets.getD (chunk + 1) 0 ≤ tc.chunkOffsets.getD chunk 0 + localJ

/-- The element matches its expected value. -/
def elementMatches (actual : ℤ → F) (head token localJ : ℤ) : Bool :=
  (elementCheck fl tc inputs head token localJ).matches fl actual

/-- Past the end of the chunk the expected value is zero. -/
theorem elementCheck_padding {head token localJ : ℤ}
    (h : (elementCheck fl tc inputs head token localJ).padding = true) :
    (elementCheck fl tc inputs head token localJ).expected = fl.lit 0 := by
  have hpast := of_decide_eq_true h
  simp only [elementCheck, computeExpectedAt, hpast, if_true, ite_self]

theorem checkRow_eq (h : Accepted tc.t tc.chunkOffsets) {row : ℤ × ℤ} (h0 : 0 ≤ row.2)
    (ht : row.2 < tc.t) :
    checkRow fl.toHostFloat tc inputs row =
      some ((List.range 64).map fun localJ : ℕ =>
        elementCheck fl tc inputs row.1 row.2 localJ) := by
  obtain ⟨-, begin, stop, hb, hs, -⟩ := findChunkIndex_spec h h0 ht
  have hbounds : chunkBounds tc row.2 = some (begin, stop) := by
    simp [chunkBounds, hb, hs]
  have hget : tc.chunkOffsets.getD (tc.findChunkIndex row.2) 0 = begin := by
    rw [List.getD_eq_getElem?_getD, hb, Option.getD_some]
  have hget' : tc.chunkOffsets.getD (tc.findChunkIndex row.2 + 1) 0 = stop := by
    rw [List.getD_eq_getElem?_getD, hs, Option.getD_some]
  rw [checkRow, hbounds]
  simp only [elementCheck, hget, hget']
  rfl

theorem mapM_checkRow_eq (h : Accepted tc.t tc.chunkOffsets) {rows : List (ℤ × ℤ)}
    (hrows : ∀ r ∈ rows, 0 ≤ r.2 ∧ r.2 < tc.t) :
    rows.mapM (checkRow fl.toHostFloat tc inputs) = some (rows.map fun row =>
      (List.range 64).map fun localJ : ℕ => elementCheck fl tc inputs row.1 row.2 localJ) := by
  induction rows with
  | nil => rfl
  | cons row rows ih =>
      have hrow := hrows row (by simp)
      rw [List.mapM_cons, checkRow_eq fl tc inputs h hrow.1 hrow.2,
        ih fun r hr => hrows r (List.mem_cons_of_mem row hr)]
      rfl

/-- The elements of some rows, in the order in which they are compared. -/
def rowElements (rows : List (ℤ × ℤ)) : List (ℤ × ℤ × ℤ) :=
  rows.flatMap fun row => (List.range 64).map fun localJ : ℕ => (row.1, row.2, (localJ : ℤ))

theorem length_rowElements (rows : List (ℤ × ℤ)) :
    (rowElements rows).length = rows.length * 64 := by
  simp [rowElements, List.length_flatMap]

/-- The elements of all rows are those of the output, in order. -/
theorem rowElements_outputRows : rowElements (outputRows tc) =
    (Buffer.grid3 tc.h.toNat tc.t.toNat 64).map fun p => ((p.1 : ℤ), (p.2.1 : ℤ), (p.2.2 : ℤ)) := by
  simp only [rowElements, outputRows, Buffer.grid3, Buffer.grid, SProd.sprod, List.product,
    List.map_flatMap, List.map_map, List.flatMap_assoc, List.flatMap_map, Function.comp_def]

/-- **A validator** goes through the elements of its rows. -/
theorem validateSampledOutput_eq (h : Accepted tc.t tc.chunkOffsets) {rows : List (ℤ × ℤ)}
    (hrows : ∀ r ∈ rows, 0 ≤ r.2 ∧ r.2 < tc.t) :
    validateSampledOutput fl.toHostFloat tc inputs rows =
      some ((rowElements rows).map fun p => elementCheck fl tc inputs p.1 p.2.1 p.2.2) := by
  rw [validateSampledOutput, mapM_checkRow_eq fl tc inputs h hrows]
  simp only [Option.bind_eq_bind, Option.bind_some, Option.pure_def, rowElements,
    List.flatMap_def, List.map_flatten, List.map_map, Function.comp_def]

/-- The full validator is the one for all rows. -/
theorem validateFullOutput_eq (h : Accepted tc.t tc.chunkOffsets) :
    validateFullOutput fl.toHostFloat tc inputs =
      some ((rowElements (outputRows tc)).map fun p =>
        elementCheck fl tc inputs p.1 p.2.1 p.2.2) :=
  validateSampledOutput_eq fl tc inputs h fun _ hr => mem_outputRows hr

/-- The comparisons are those of the elements, in order: each at the element's place in the
output, and with zero past the end of a chunk.  The statistics are the number of elements and
of those that are off, off past the end of a chunk, or not finite. -/
structure Compared (actual : ℤ → F) (elements : List (ℤ × ℤ × ℤ)) (checks : List (OutputCheck F)) :
    Prop where
  index : checks.map (·.index) = elements.map fun p => (p.1 * tc.t + p.2.1) * kChunkSize + p.2.2
  padding : ∀ check ∈ checks, check.padding = true → check.expected = fl.lit 0
  total : (runChecks fl actual checks).total = elements.length
  mismatch : (runChecks fl actual checks).mismatch =
    elements.countP fun p => !elementMatches fl tc inputs actual p.1 p.2.1 p.2.2
  paddingMismatch : (runChecks fl actual checks).paddingMismatch =
    elements.countP fun p => (elementCheck fl tc inputs p.1 p.2.1 p.2.2).padding &&
      !elementMatches fl tc inputs actual p.1 p.2.1 p.2.2
  nonFinite : (runChecks fl actual checks).nonFinite =
    elements.countP fun p => !fl.isFinite (actual ((p.1 * tc.t + p.2.1) * kChunkSize + p.2.2))

theorem compared_elements (actual : ℤ → F) (elements : List (ℤ × ℤ × ℤ)) :
    Compared fl tc inputs actual elements
      (elements.map fun p => elementCheck fl tc inputs p.1 p.2.1 p.2.2) where
  index := by
    rw [List.map_map]
    rfl
  padding := by
    simp only [List.forall_mem_map]
    exact fun p _ => elementCheck_padding fl tc inputs
  total := by rw [(runChecks_counts _).total, List.length_map]
  mismatch := by
    rw [(runChecks_counts _).mismatch, List.countP_map]
    rfl
  paddingMismatch := by
    rw [(runChecks_counts _).paddingMismatch, List.countP_map]
    rfl
  nonFinite := by
    rw [(runChecks_counts _).nonFinite, List.countP_map]
    rfl

end

/-! ## Verdicts -/

theorem validateCase_accepted (h : validateCase tc = true) : Accepted tc.t tc.chunkOffsets := by
  rw [validateCase, Bool.and_eq_true] at h
  exact (offsetsAccepted_iff tc.offsets_lt).mp h.2

/-- All elements of the output match. -/
def OutputMatches (fl : CheckFloat F) (tc : TestCase) (inputs : HostInputs F) (actual : ℤ → F) :
    Prop :=
  ∀ head token localJ : ℕ, head < tc.h → token < tc.t → localJ < 64 →
    elementMatches fl tc inputs actual head token localJ = true

/-- The comparisons with some elements end without a mismatch. -/
theorem elements_mismatch_eq_zero {elements : List (ℤ × ℤ × ℤ)} :
    (runChecks fl actual
      (elements.map fun p => elementCheck fl tc inputs p.1 p.2.1 p.2.2)).mismatch = 0 ↔
      ∀ p ∈ elements, elementMatches fl tc inputs actual p.1 p.2.1 p.2.2 = true := by
  rw [(compared_elements fl tc inputs actual elements).mismatch, List.countP_eq_zero]
  simp

theorem fullOutputPasses_eq (h : Accepted tc.t tc.chunkOffsets) :
    fullOutputPasses fl tc inputs actual = some true ↔ OutputMatches fl tc inputs actual := by
  rw [fullOutputPasses, validateFullOutput_eq fl tc inputs h]
  simp only [Option.bind_eq_bind, Option.bind_some, Option.pure_def, Option.some.injEq,
    decide_eq_true_eq, elements_mismatch_eq_zero, rowElements_outputRows, List.forall_mem_map]
  constructor
  · intro hall head token localJ hhead htoken hlocal
    refine hall (head, token, localJ) ?_
    rw [Buffer.mem_grid3]
    omega
  · rintro hall ⟨head, token, localJ⟩ hmem
    rw [Buffer.mem_grid3] at hmem
    exact hall head token localJ (by omega) (by omega) hmem.2.2

theorem sampledOutputPasses_eq (h : Accepted tc.t tc.chunkOffsets) {fuel : ℕ} {sampledRows : ℤ}
    (hpos : 0 < sampledRows) {rows : List (ℤ × ℤ)}
    (hrows : buildSampleRows tc fuel sampledRows = some rows) :
    sampledOutputPasses fl tc inputs fuel sampledRows actual = some true ↔
      ∀ row ∈ rows, ∀ localJ : ℕ, localJ < 64 →
        elementMatches fl tc inputs actual row.1 row.2 localJ = true := by
  rw [sampledOutputPasses, if_neg (by omega), hrows]
  simp only [Option.bind_eq_bind, Option.bind_some]
  rw [validateSampledOutput_eq fl tc inputs h (buildSampleRows_tokens hrows)]
  simp only [Option.bind_some, Option.pure_def, Option.some.injEq, decide_eq_true_eq,
    elements_mismatch_eq_zero, rowElements, List.mem_flatMap, List.mem_map, List.mem_range]
  constructor
  · intro hall row hrow localJ hlocal
    exact hall _ ⟨row, hrow, localJ, hlocal, rfl⟩
  · rintro hall _ ⟨row, hrow, localJ, hlocal, rfl⟩
    exact hall row hrow localJ hlocal

/-- The sampled validator accepts an output that matches everywhere. -/
theorem sampledOutputPasses_of_matches (h : Accepted tc.t tc.chunkOffsets) {fuel : ℕ}
    {sampledRows : ℤ} {rows : List (ℤ × ℤ)}
    (hrows : buildSampleRows tc fuel sampledRows = some rows)
    (hall : OutputMatches fl tc inputs actual) :
    sampledOutputPasses fl tc inputs fuel sampledRows actual = some true := by
  by_cases hpos : 0 < sampledRows
  · rw [sampledOutputPasses_eq h hpos hrows]
    intro row hrow localJ hlocal
    obtain ⟨h0, hhead, h0', htoken⟩ := buildSampleRows_inOutput hrows hrow
    have hmatch := hall row.1.toNat row.2.toNat localJ (by omega) (by omega) hlocal
    rwa [Int.toNat_of_nonneg h0, Int.toNat_of_nonneg h0'] at hmatch
  · rw [sampledOutputPasses, if_pos (by omega)]

/-- **What the validators decide** for an accepted case, whatever the arithmetic.  The full
validator compares the elements of the output in order, each once, and accepts exactly the
outputs whose elements all match.  The sampled one, whenever the sampler returns, does so
for the elements of its rows, no row twice; it accepts what the full one accepts.  The
statistics of both are those of the elements compared. -/
theorem validation_verdict (h : validateCase tc = true) (inputs : HostInputs F) (actual : ℤ → F) :
    (∃ checks, validateFullOutput fl.toHostFloat tc inputs = some checks ∧
      checks.map (·.index) = (List.range (tc.h.toNat * tc.t.toNat * 64)).map Nat.cast ∧
      Compared fl tc inputs actual (rowElements (outputRows tc)) checks) ∧
    (fullOutputPasses fl tc inputs actual = some true ↔ OutputMatches fl tc inputs actual) ∧
    ∀ fuel sampledRows rows, buildSampleRows tc fuel sampledRows = some rows →
      rows.Nodup ∧
      (∃ checks, validateSampledOutput fl.toHostFloat tc inputs rows = some checks ∧
        Compared fl tc inputs actual (rowElements rows) checks) ∧
      (0 < sampledRows → (sampledOutputPasses fl tc inputs fuel sampledRows actual = some true ↔
        ∀ row ∈ rows, ∀ localJ : ℕ, localJ < 64 →
          elementMatches fl tc inputs actual row.1 row.2 localJ = true)) ∧
      (fullOutputPasses fl tc inputs actual = some true →
        sampledOutputPasses fl tc inputs fuel sampledRows actual = some true) := by
  have hacc := validateCase_accepted h
  refine ⟨⟨_, validateFullOutput_eq fl tc inputs hacc, ?_, compared_elements fl tc inputs actual _⟩,
    fullOutputPasses_eq hacc, ?_⟩
  · have ht : (tc.t.toNat : ℤ) = tc.t := by
      have := hacc.chunks_le
      omega
    rw [(compared_elements fl tc inputs actual _).index, rowElements_outputRows,
      ← Buffer.grid3_flat, List.map_map, List.map_map]
    refine List.map_congr_left fun p _ => ?_
    simp only [Function.comp_apply, kChunkSize, Nat.cast_add, Nat.cast_mul, ht]
    rfl
  · intro fuel sampledRows rows hrows
    have hsampled := validateSampledOutput_eq fl tc inputs hacc (buildSampleRows_tokens hrows)
    refine ⟨buildSampleRows_nodup hrows, ⟨_, hsampled, compared_elements fl tc inputs actual _⟩,
      fun hpos => sampledOutputPasses_eq hacc hpos hrows, fun hfull => ?_⟩
    exact sampledOutputPasses_of_matches hacc hrows ((fullOutputPasses_eq hacc).mp hfull)

/-- With equal gates an output of zeros passes: 960 elements in full, or all 15 rows that the
sampler draws. -/
theorem validation_verdict_fiveTokens :
    let fl : CheckFloat ℚ := exactFloat (fun _ => 1) (fun _ => 0) (fun _ => 0)
    let inputs : HostInputs ℚ := ⟨fun _ => 1, fun _ => 1, fun _ => 0⟩
    ∃ checks, validateFullOutput fl.toHostFloat fiveTokens inputs = some checks ∧
      (runChecks fl (fun _ => 0) checks).total = 960 ∧
      fullOutputPasses fl fiveTokens inputs (fun _ => 0) = some true ∧
      ∃ n, sampledOutputPasses fl fiveTokens inputs n 15 (fun _ => 0) = some true := by
  intro fl inputs
  have hcase : validateCase fiveTokens = true := by decide
  have hmatches : OutputMatches fl fiveTokens inputs fun _ => 0 := by
    intro head token localJ _ _ _
    have hexpected : computeExpectedAt fl.toHostFloat fiveTokens inputs head token localJ = 0 := by
      simp [computeExpectedAt, inputs, fl, exactFloat]
    rw [elementMatches, OutputCheck.matches, elementCheck, hexpected]
    exact valuesMatch_self _ _ _ _
  obtain ⟨n, rows, hrun, -⟩ := @samplesRows_of_enough fiveTokens
    (validateCase_accepted hcase) (by decide) (by decide) 15 (by decide) (by decide)
    (Or.inl ⟨fun h => absurd h.1 (by decide), Int.ofNat_le.mpr card_allKeys_fiveTokens⟩)
  have hrows := hrun (n + 1) (Nat.lt_succ_self n)
  obtain ⟨⟨checks, hfull, -, hcompared⟩, hpasses, hsampled⟩ :=
    @validation_verdict _ fl _ hcase inputs fun _ => 0
  refine ⟨checks, hfull, ?_, hpasses.mpr hmatches, n + 1, ?_⟩
  · rw [hcompared.total, length_rowElements]
    rfl
  · exact (hsampled (n + 1) 15 rows hrows).2.2.2 (hpasses.mpr hmatches)

end ChunkScaledDotKkt.Harness
