import ChunkScaledDotKkt.Lib.BlockCopy
import ChunkScaledDotKkt.Vector.Stage

/-!
# The copy-out of a ready output

The `DataCopy` commands that `LaunchReadyOutput` issues for a queued record.  Two heads
leave by one descriptor of two blocks when the gap between their rows fits the 16-bit
stride field, and by one plain copy a head otherwise; both make the same moves.

## Main results

* `launchMoves_eq_plainMoves` — whichever branch runs, the moves are those of the plain
  copies.
* `copy_out` — where the rows of every queued pair land, and that no field of a
  descriptor loses bits.
-/

namespace ChunkScaledDotKkt

open MachineInt BlockCopy

/-! ## Commands -/

/-- The 16-bit fields of a strided copy; lengths and gaps count blocks of 32 bytes. -/
structure DataCopyParams where
  blockCount : ℤ
  blockLen : ℤ
  srcStride : ℤ
  dstStride : ℤ
  deriving Repr, DecidableEq

/-- A copy from an element of `outputLocal` to an element of `outputGm_`. -/
inductive OutputCopy
  | plain (dst : ℤ) (src : ℕ) (count : ℤ)
  | strided (dst : ℤ) (src : ℕ) (params : DataCopyParams)
  deriving Repr, DecidableEq

namespace OutputCopy

def kElemsPerDataBlock : ℤ := 32 / 4

def moves : OutputCopy → List Move
  | .plain dst src count => contiguous dst src count.toNat
  | .strided dst src params =>
      BlockCopy.strided dst src params.blockCount.toNat
        (params.blockLen * kElemsPerDataBlock).toNat (params.srcStride * kElemsPerDataBlock).toNat
        (params.dstStride * kElemsPerDataBlock).toNat

end OutputCopy

namespace VectorStage

open OutputCopy

def kFullHeadBlocks : ℤ := KKT_ELEMS / kElemsPerDataBlock
def kTwoChunkHeadBlocks : ℤ := 2 * kFullHeadBlocks
def kMaxDataCopyStride : ℤ := 65535

/-- `dstStrideBlocks`: from the end of a head's rows to the rows of the next head. -/
def dstStrideBlocks (t headBlocks : ℤ) : ℤ := t * (ROW_ELEMS / kElemsPerDataBlock) - headBlocks

/-- The range test before a stride is cast to its field. -/
def strideFits (t headBlocks : ℤ) : Prop :=
  0 ≤ dstStrideBlocks t headBlocks ∧ dstStrideBlocks t headBlocks ≤ kMaxDataCopyStride

instance (t headBlocks : ℤ) : Decidable (strideFits t headBlocks) :=
  inferInstanceAs (Decidable (_ ∧ _))

/-- `copyParams`, with the casts to 16 bits. -/
def headPairParams (t headBlocks : ℤ) : DataCopyParams where
  blockCount := 2
  blockLen := u16 headBlocks
  srcStride := 0
  dstStride := u16 (dstStrideBlocks t headBlocks)

end VectorStage

open VectorStage

namespace OutputRecord

variable (t : ℤ) (record : OutputRecord)

/-- The copies of one launch. -/
def launchCopies : List OutputCopy :=
  if record.isChunkPair then
    if ¬ record.isPair then [.plain record.firstOutputOffset 0 (2 * KKT_ELEMS)]
    else if strideFits t kTwoChunkHeadBlocks then
      [.strided record.firstOutputOffset 0 (headPairParams t kTwoChunkHeadBlocks)]
    else
      [.plain record.firstOutputOffset 0 (2 * KKT_ELEMS),
       .plain record.secondOutputOffset (2 * 4096) (2 * KKT_ELEMS)]
  else if record.isPair then
    if record.activeElems = KKT_ELEMS ∧ strideFits t kFullHeadBlocks then
      [.strided record.firstOutputOffset 0 (headPairParams t kFullHeadBlocks)]
    else
      [.plain record.firstOutputOffset 0 record.activeElems,
       .plain record.secondOutputOffset 4096 record.activeElems]
  else [.plain record.firstOutputOffset 0 record.activeElems]

def launchMoves : List Move := (record.launchCopies t).flatMap OutputCopy.moves

/-! ## The plain copies -/

/-- The elements of a head. -/
def headElems : ℕ := if record.isChunkPair then 8192 else record.activeElems.toNat

/-- Where the second head of a pair starts in UB. -/
def secondSource : ℕ := if record.isChunkPair then 8192 else 4096

/-- One contiguous copy for each head: what the path without a descriptor moves. -/
def plainMoves : List Move :=
  contiguous record.firstOutputOffset 0 record.headElems ++
    if record.isPair then
      contiguous record.secondOutputOffset record.secondSource record.headElems
    else []

/-- The second head lies one head of rows after the first. -/
def Pitched : Prop :=
  record.isPair → record.secondOutputOffset = record.firstOutputOffset + t * ROW_ELEMS

variable {t record}

/-- A descriptor whose stride fits moves one head of `headBlocks` blocks after the other,
to rows that are `t` tokens apart. -/
theorem headPairParams_moves {headBlocks dst : ℤ} (hlen : 0 ≤ headBlocks ∧ headBlocks < 65536)
    (hfits : strideFits t headBlocks) :
    (OutputCopy.strided dst 0 (headPairParams t headBlocks)).moves =
      contiguous dst 0 (headBlocks * 8).toNat ++
        contiguous (dst + t * ROW_ELEMS) (headBlocks * 8).toNat (headBlocks * 8).toNat := by
  have hblock : u16 headBlocks = headBlocks := u16_eq_self hlen.1 hlen.2
  obtain ⟨hlo, hhi⟩ := hfits
  have hstride : u16 (dstStrideBlocks t headBlocks) = dstStrideBlocks t headBlocks :=
    u16_eq_self hlo (by simp only [kMaxDataCopyStride] at hhi; omega)
  have hpitch : (((headBlocks * 8).toNat + (dstStrideBlocks t headBlocks * 8).toNat : ℕ) : ℤ) =
      t * ROW_ELEMS := by
    simp only [dstStrideBlocks, OutputCopy.kElemsPerDataBlock, ROW_ELEMS] at hlo ⊢
    omega
  simp only [OutputCopy.moves, headPairParams, hblock, hstride, OutputCopy.kElemsPerDataBlock]
  rw [show (2 : ℤ).toNat = 2 from rfl, strided_two]
  simp [hpitch]

@[simp] theorem kFullHeadBlocks_elems : (kFullHeadBlocks * 8).toNat = 4096 := rfl

@[simp] theorem kTwoChunkHeadBlocks_elems : (kTwoChunkHeadBlocks * 8).toNat = 8192 := rfl

@[simp] theorem kktElems_toNat : KKT_ELEMS.toNat = 4096 := rfl

@[simp] theorem two_kktElems_toNat : (2 * KKT_ELEMS).toNat = 8192 := rfl

/-- Whichever branch runs, the moves are those of the plain copies. -/
theorem launchMoves_eq_plainMoves (hpitched : record.Pitched t) :
    record.launchMoves t = record.plainMoves := by
  obtain ⟨isPair, isChunkPair, first, second, activeElems⟩ := record
  cases isPair with
  | false => cases isChunkPair <;>
      simp [launchMoves, launchCopies, plainMoves, headElems, OutputCopy.moves]
  | true =>
      have hsecond : second = first + t * ROW_ELEMS := hpitched rfl
      cases isChunkPair with
      | true =>
          by_cases hfits : strideFits t kTwoChunkHeadBlocks
          · have hmoves := @headPairParams_moves t kTwoChunkHeadBlocks first (by decide) hfits
            simp [launchMoves, launchCopies, plainMoves, headElems, secondSource, hfits, hmoves,
              hsecond]
          · simp [launchMoves, launchCopies, plainMoves, headElems, secondSource, hfits,
              OutputCopy.moves]
      | false =>
          by_cases hfits : activeElems = KKT_ELEMS ∧ strideFits t kFullHeadBlocks
          · have hmoves := @headPairParams_moves t kFullHeadBlocks first (by decide) hfits.2
            simp [launchMoves, launchCopies, plainMoves, headElems, secondSource, hfits, hmoves,
              hsecond]
          · simp [launchMoves, launchCopies, plainMoves, headElems, secondSource, hfits,
              OutputCopy.moves]

/-- A descriptor in a launch keeps its length and its stride. -/
theorem params_exact {dst : ℤ} {src : ℕ} {params : DataCopyParams}
    (h : OutputCopy.strided dst src params ∈ record.launchCopies t) :
    params.blockLen * 8 = record.headElems ∧
      params.dstStride = dstStrideBlocks t params.blockLen := by
  have hexact : ∀ {headBlocks}, 0 ≤ headBlocks ∧ headBlocks < 65536 → strideFits t headBlocks →
      (headPairParams t headBlocks).blockLen = headBlocks ∧
        (headPairParams t headBlocks).dstStride = dstStrideBlocks t headBlocks := by
    intro headBlocks hlen ⟨hlo, hhi⟩
    simp only [kMaxDataCopyStride] at hhi
    exact ⟨u16_eq_self hlen.1 hlen.2, u16_eq_self hlo (by omega)⟩
  obtain ⟨isPair, isChunkPair, first, second, activeElems⟩ := record
  cases isPair with
  | false => cases isChunkPair <;> simp [launchCopies] at h
  | true =>
      cases isChunkPair with
      | true =>
          by_cases hfits : strideFits t kTwoChunkHeadBlocks
          · obtain ⟨hlen, hstride⟩ := hexact (by decide) hfits
            simp only [launchCopies, hfits, not_true_eq_false, if_true, if_false,
              List.mem_singleton, OutputCopy.strided.injEq] at h
            rw [h.2.2, hstride, hlen]
            exact ⟨rfl, rfl⟩
          · simp [launchCopies, hfits] at h
      | false =>
          by_cases hfits : activeElems = KKT_ELEMS ∧ strideFits t kFullHeadBlocks
          · obtain ⟨hlen, hstride⟩ := hexact (by decide) hfits.2
            simp only [launchCopies, hfits, and_self, Bool.false_eq_true, if_true, if_false,
              List.mem_singleton, OutputCopy.strided.injEq] at h
            have hactive : activeElems = KKT_ELEMS := hfits.1
            rw [h.2.2, hstride, hlen, hactive]
            exact ⟨rfl, rfl⟩
          · simp [launchCopies, hfits] at h

/-! ## Where the rows land -/

/-- The launch of a record whose heads are `rows` rows each, `pitch` elements apart in UB:
row `x` of head `h` lands at the row of its token, by the moves of the plain copies, and a
descriptor carries the exact length and gap of the heads. -/
structure HeadsPlaced (t : ℤ) (record : OutputRecord) (firstHead start : ℤ)
    (heads rows pitch : ℕ) : Prop where
  plain : record.launchMoves t = record.plainMoves
  placed : ∀ move, move ∈ record.launchMoves t ↔ ∃ h x j, h < heads ∧ x < rows ∧ j < 64 ∧
    move = ⟨h * pitch + x * 64 + j, ((firstHead + h) * t + start + x) * 64 + j⟩
  exact : ∀ dst src params, OutputCopy.strided dst src params ∈ record.launchCopies t →
    params.blockLen = rows * 8 ∧ params.dstStride = t * 8 - rows * 8

/-- A run of whole rows. -/
theorem mem_contiguous_rows {row : ℤ} {src rows : ℕ} {move : Move} :
    move ∈ contiguous (row * 64) src (rows * 64) ↔
      ∃ x j, x < rows ∧ j < 64 ∧ move = ⟨src + x * 64 + j, (row + x) * 64 + j⟩ := by
  rw [mem_contiguous]
  constructor
  · intro ⟨i, hi, hmove⟩
    refine ⟨i / 64, i % 64, by omega, by omega, ?_⟩
    rw [hmove, Move.mk.injEq]
    omega
  · intro ⟨x, j, hx, hj, hmove⟩
    refine ⟨x * 64 + j, by omega, ?_⟩
    rw [hmove, Move.mk.injEq]
    omega

/-- The plain copies of a record of whole rows. -/
theorem mem_plainMoves {firstHead start : ℤ} {rows : ℕ} {move : Move}
    (hfirst : record.firstOutputOffset = (firstHead * t + start) * ROW_ELEMS)
    (hpitched : record.Pitched t) (helems : record.headElems = rows * 64) :
    move ∈ record.plainMoves ↔
      ∃ h x j, h < (if record.isPair then 2 else 1) ∧ x < rows ∧ j < 64 ∧
        move = ⟨h * record.secondSource + x * 64 + j,
          ((firstHead + h) * t + start + x) * 64 + j⟩ := by
  have hhead : ∀ h : ℕ, move ∈ contiguous (((firstHead + h) * t + start) * 64)
      (h * record.secondSource) (rows * 64) ↔ ∃ x j, x < rows ∧ j < 64 ∧
        move = ⟨h * record.secondSource + x * 64 + j,
          ((firstHead + h) * t + start + x) * 64 + j⟩ := fun h => mem_contiguous_rows
  have hzero : contiguous record.firstOutputOffset 0 record.headElems =
      contiguous (((firstHead + (0 : ℕ)) * t + start) * 64) (0 * record.secondSource)
        (rows * 64) := by
    simp [hfirst, helems, ROW_ELEMS]
  by_cases hpair : record.isPair
  · have hone : contiguous record.secondOutputOffset record.secondSource record.headElems =
        contiguous (((firstHead + (1 : ℕ)) * t + start) * 64) (1 * record.secondSource)
          (rows * 64) := by
      rw [hpitched hpair, hfirst, helems, Nat.one_mul]
      congr 1
      simp only [ROW_ELEMS]
      push_cast
      ring
    rw [plainMoves, if_pos hpair, if_pos hpair, List.mem_append, hzero, hone, hhead, hhead]
    constructor
    · intro h
      cases h with
      | inl h => exact ⟨0, h.choose, h.choose_spec.choose, by decide, h.choose_spec.choose_spec⟩
      | inr h => exact ⟨1, h.choose, h.choose_spec.choose, by decide, h.choose_spec.choose_spec⟩
    · rintro ⟨h, x, j, hh, hmove⟩
      have hcases : h = 0 ∨ h = 1 := by omega
      cases hcases with
      | inl h0 => exact Or.inl ⟨x, j, h0 ▸ hmove⟩
      | inr h1 => exact Or.inr ⟨x, j, h1 ▸ hmove⟩
  · rw [plainMoves, if_neg hpair, if_neg hpair, List.append_nil, hzero, hhead]
    constructor
    · rintro ⟨x, j, hmove⟩
      exact ⟨0, x, j, by decide, hmove⟩
    · rintro ⟨h, x, j, hh, hmove⟩
      have h0 : h = 0 := by omega
      exact ⟨x, j, h0 ▸ hmove⟩

theorem headsPlaced {firstHead start : ℤ} {rows : ℕ}
    (hfirst : record.firstOutputOffset = (firstHead * t + start) * ROW_ELEMS)
    (hpitched : record.Pitched t) (helems : record.headElems = rows * 64) :
    HeadsPlaced t record firstHead start (if record.isPair then 2 else 1) rows
      record.secondSource where
  plain := launchMoves_eq_plainMoves hpitched
  placed := fun move => by
    rw [launchMoves_eq_plainMoves hpitched, mem_plainMoves hfirst hpitched helems]
  exact := fun dst src params h => by
    obtain ⟨hlen, hstride⟩ := params_exact h
    rw [hstride, dstStrideBlocks]
    simp only [ROW_ELEMS, OutputCopy.kElemsPerDataBlock]
    omega

/-- A launch writes no element twice when a head's rows end before the next head's. -/
theorem nodup_targets (hpitched : record.Pitched t)
    (hle : (record.headElems : ℤ) ≤ t * ROW_ELEMS) :
    (targets (record.launchMoves t)).Nodup := by
  rw [launchMoves_eq_plainMoves hpitched, plainMoves, targets_append]
  by_cases hpair : record.isPair
  · rw [if_pos hpair]
    refine List.nodup_append.mpr ⟨nodup_contiguous _ _ _, nodup_contiguous _ _ _, ?_⟩
    intro a ha b hb
    have hsecond := hpitched hpair
    rw [mem_targets_contiguous] at ha hb
    omega
  · rw [if_neg hpair, targets_nil, List.append_nil]
    exact nodup_contiguous _ _ _

end OutputRecord

open OutputRecord

namespace VectorStage

/-- The active elements of whole rows fit their 32-bit field. -/
theorem activeElems_eq {rowCount : ℕ} (hrows : rowCount * 64 < 4294967296) :
    u32 (rowCount * ROW_ELEMS) = (rowCount * 64 : ℕ) := by
  rw [ROW_ELEMS, u32_eq_self (by omega) (by omega)]
  push_cast
  rfl

theorem queueDelayedSingleOutput_pitched (t headId start rowStart rowCount : ℤ) :
    (queueDelayedSingleOutput t headId start rowStart rowCount).Pitched t := by
  intro hpair
  simp [queueDelayedSingleOutput] at hpair

theorem queueDelayedSingleOutput_placed (t headId start rowStart : ℤ) {rowCount : ℕ}
    (hrows : rowCount * 64 < 4294967296) :
    HeadsPlaced t (queueDelayedSingleOutput t headId start rowStart rowCount) headId
      (start + rowStart) 1 rowCount 4096 := by
  apply headsPlaced
  · simp only [queueDelayedSingleOutput, Int.add_assoc]
  · exact queueDelayedSingleOutput_pitched t headId start rowStart rowCount
  · change (u32 (rowCount * ROW_ELEMS)).toNat = rowCount * 64
    rw [activeElems_eq hrows, Int.toNat_natCast]

theorem queueDelayedPairOutput_pitched (t firstHead start activeElems : ℤ) :
    (queueDelayedPairOutput t firstHead start activeElems).Pitched t := by
  intro _
  simp only [queueDelayedPairOutput]
  ring

theorem queueDelayedChunkPairOutput_pitched (t firstHead start localHeadCount : ℤ) :
    (queueDelayedChunkPairOutput t firstHead start localHeadCount).Pitched t := by
  intro hpair
  simp only [queueDelayedChunkPairOutput, decide_eq_true_eq] at hpair ⊢
  rw [if_pos hpair]
  ring

/-- A pair of heads of one chunk. -/
theorem queueDelayedPairOutput_placed (t firstHead start : ℤ) {rowCount : ℕ}
    (hrows : rowCount * 64 < 4294967296) :
    HeadsPlaced t (queueDelayedPairOutput t firstHead start (rowCount * ROW_ELEMS)) firstHead
      start 2 rowCount 4096 := by
  apply headsPlaced
  · rfl
  · exact queueDelayedPairOutput_pitched t firstHead start _
  · change (u32 (rowCount * ROW_ELEMS)).toNat = rowCount * 64
    rw [activeElems_eq hrows, Int.toNat_natCast]

/-- One or two heads of two adjacent full chunks. -/
theorem queueDelayedChunkPairOutput_placed (t firstHead start : ℤ) {localHeadCount : ℕ}
    (hheads : localHeadCount = 1 ∨ localHeadCount = 2) :
    HeadsPlaced t (queueDelayedChunkPairOutput t firstHead start localHeadCount) firstHead start
      localHeadCount 128 8192 := by
  have hplaced : HeadsPlaced t (queueDelayedChunkPairOutput t firstHead start localHeadCount)
      firstHead start _ 128 8192 :=
    headsPlaced rfl (queueDelayedChunkPairOutput_pitched t firstHead start localHeadCount) rfl
  cases hheads with
  | inl h => subst h; exact hplaced
  | inr h => subst h; exact hplaced

/-- For the pair and the chunk-pair records alike the launch makes the moves of the plain
copies, whichever branch `t` and the active size select, and no descriptor loses a bit of
its length or stride. -/
theorem copy_out (t firstHead start : ℤ) :
    (∀ rowCount : ℕ, rowCount * 64 < 4294967296 →
      HeadsPlaced t (queueDelayedPairOutput t firstHead start (rowCount * ROW_ELEMS)) firstHead
        start 2 rowCount 4096) ∧
    (∀ localHeadCount : ℕ, localHeadCount = 1 ∨ localHeadCount = 2 →
      HeadsPlaced t (queueDelayedChunkPairOutput t firstHead start localHeadCount) firstHead
        start localHeadCount 128 8192) :=
  ⟨fun _ hrows => queueDelayedPairOutput_placed t firstHead start hrows,
    fun _ hheads => queueDelayedChunkPairOutput_placed t firstHead start hheads⟩

/-- Two full heads at the largest `t` whose stride fits, and at the next one. -/
theorem copy_out_at_limit :
    HeadsPlaced 8255 (queueDelayedPairOutput 8255 3 64 (64 * ROW_ELEMS)) 3 64 2 64 4096 ∧
    HeadsPlaced 8256 (queueDelayedPairOutput 8256 3 64 (64 * ROW_ELEMS)) 3 64 2 64 4096 ∧
    HeadsPlaced 8320 (queueDelayedChunkPairOutput 8320 3 64 2) 3 64 2 128 8192 :=
  ⟨(copy_out 8255 3 64).1 64 (by decide), (copy_out 8256 3 64).1 64 (by decide),
    (copy_out 8320 3 64).2 2 (by decide)⟩

end VectorStage

end ChunkScaledDotKkt
