import ChunkScaledDotKkt.Cube.Packing
import ChunkScaledDotKkt.Lib.Blocks

/-!
# The Gram product

Each K-part moves a 64-wide column range of the packed tile to L0A and L0B, once as
rows and once as columns of the same bytes, and adds their product to L0C.  After
all parts L0C is the Gram matrix of the tile, which `CommitWorkspace` copies to its
slot.

The conditions below carry assertions as well: every load reads the tile of its own
task, every MMAD reads the stages of its own K-part, and the commit reads a complete
product.

## Main results

* `meets_computeGram` — both stages meet these assertions and leave the Gram matrix.
* `commit_gram` — the slot after a task, and the rest of the workspace.
-/

namespace ChunkScaledDotKkt

open MachineInt Buffer CubeUnit PackedGramMmadCubeStage TokenNet

variable {R : Type} [Semiring R]

/-! ## The instructions on whole tiles -/

/-- L0A holds columns `64 * p, …` of `X`. -/
def HoldsA (X : ℕ → ℕ → R) (p : ℕ) (l0a : ℕ → R) : Prop :=
  ∀ m < 64, ∀ k < 64, l0a (zZIndex 64 m k) = X m (p * 64 + k)

/-- The first `b` blocks of L0B hold columns `64 * p, …` of `X`, transposed. -/
def HoldsB (X : ℕ → ℕ → R) (p b : ℕ) (l0b : ℕ → R) : Prop :=
  ∀ k < b * 16, ∀ n < 64, l0b (nZIndex 64 k n) = X n (p * 64 + k)

/-- The product of rows `i` and `j` of `X` over the first `n` columns. -/
def gram (X : ℕ → ℕ → R) (n i j : ℕ) : R := ∑ c ∈ Finset.range n, X i c * X j c

/-- L0C holds the Gram matrix of the first `p` K-parts. -/
def HoldsC (X : ℕ → ℕ → R) (p : ℕ) (l0c : ℕ → R) : Prop :=
  ∀ i < 64, ∀ j < 64, l0c (nzIndex 64 i j) = gram X (p * 64) i j

variable {mode : KMode} {X : ℕ → ℕ → R}

omit [Semiring R] in
theorem loadA_holds {l1 l0a : ℕ → R} (h : Packed mode X l1) {p : ℕ} (hp : p < mode.kParts) :
    HoldsA X p (loadData3D loadAParams (slice (p * K_STEP * 64) l1) l0a) := by
  intro m hm k hk
  have hmem : (m, k) ∈ grid loadAParams.mExtension loadAParams.kExtension := by
    rw [mem_grid]
    exact ⟨hm, hk⟩
  refine (scatter_hit_of_injOn hmem rfl ?_).trans ?_
  · rintro ⟨m', k'⟩ hj heq
    rw [mem_grid] at hj
    simp only [zZIndex, loadAParams, K_STEP] at heq hj
    exact Prod.ext (by omega) (by omega)
  · have hcol : p * 64 + k < mode.kDim := by
      cases mode <;> simp only [KMode.kParts, KMode.kDim] at hp ⊢ <;> omega
    rw [← h m hm _ hcol]
    simp only [slice, loadAParams, K_STEP, nzIndex]
    congr 1
    omega

omit [Semiring R] in
theorem loadB_holds {l1 l0b : ℕ → R} (h : Packed mode X l1) {p b : ℕ} (hp : p < mode.kParts)
    (hb : b < 4) (hprev : HoldsB X p b l0b) :
    HoldsB X p (b + 1) (into (b * blockOffset)
      (loadData2D loadBParams (slice (p * K_STEP * 64 + b * blockOffset) l1)) l0b) := by
  intro k hk n hn
  by_cases hold : k < b * 16
  · -- an earlier block lies below the block that is written
    rw [into_lt (by simp only [nZIndex, blockOffset]; omega)]
    exact hprev k hold n hn
  · have haddr : nZIndex 64 k n = b * blockOffset + (n / 16 * 256 + (n % 16 * 16 + k % 16)) := by
      simp only [nZIndex, blockOffset]
      omega
    rw [haddr, into_add]
    have hmem : (n / 16, n % 16 * 16 + k % 16) ∈ grid loadBParams.repeatTimes 256 := by
      rw [mem_grid]
      change n / 16 < 4 ∧ _
      omega
    refine (scatter_hit_of_injOn hmem (by simp [loadBParams]) ?_).trans ?_
    · rintro ⟨f, i⟩ hj heq
      rw [mem_grid] at hj
      simp only [loadBParams] at heq
      exact Prod.ext (by omega) (by omega)
    · have hcol : p * 64 + k < mode.kDim := by
        cases mode <;> simp only [KMode.kParts, KMode.kDim] at hp ⊢ <;> omega
      rw [← h n hn _ hcol]
      simp only [slice, loadBParams, K_STEP, blockOffset, nzIndex, Bool.false_eq_true, if_false]
      congr 1
      omega

theorem mmad_holds {a b c : ℕ → R} {p : ℕ} {initializeC : Bool} (ha : HoldsA X p a)
    (hb : HoldsB X p 4 b) (hc : if initializeC then p = 0 else HoldsC X p c) :
    HoldsC X (p + 1) (CubeUnit.mmad (mmadParams initializeC) a b c) := by
  intro i hi j hj
  have hmem : (i, j) ∈ grid (mmadParams initializeC).m (mmadParams initializeC).n := by
    rw [mem_grid]
    exact ⟨hi, hj⟩
  refine (scatter_hit_of_injOn hmem rfl ?_).trans ?_
  · rintro ⟨i', j'⟩ hj' heq
    rw [mem_grid] at hj'
    obtain ⟨h1, h2⟩ := nzIndex_inj hj'.1 hi heq
    rw [h1, h2]
  · have hsum : ∑ x ∈ Finset.range 64, a (zZIndex 64 i x) * b (nZIndex 64 x j) =
        ∑ x ∈ Finset.range 64, X i (p * 64 + x) * X j (p * 64 + x) := by
      refine Finset.sum_congr rfl ?_
      intro x hx
      rw [Finset.mem_range] at hx
      rw [ha i hi x hx, hb x (by omega) j hj]
    have hacc : (if initializeC = true then 0 else c (nzIndex 64 i j)) = gram X (p * 64) i j := by
      cases initializeC with
      | true =>
          obtain rfl : p = 0 := by simpa using hc
          simp [gram]
      | false => exact hc i hi j hj
    change (if initializeC = true then 0 else c (nzIndex 64 i j)) +
      ∑ x ∈ Finset.range 64, a (zZIndex 64 i x) * b (nZIndex 64 x j) = _
    rw [hacc, hsum, gram, gram, Nat.add_mul, Nat.one_mul, Finset.sum_range_add]

theorem commit_holds {l0c : ℕ → R} (h : HoldsC X mode.kParts l0c) (dst : ℕ → R) {i j : ℕ}
    (hi : i < 64) (hj : j < 64) :
    fixpipe fixpipeParams l0c dst (i * 64 + j) = gram X mode.kDim i j := by
  have hmem : (0, i, j) ∈ grid3 fixpipeParams.ndNum fixpipeParams.mSize fixpipeParams.nSize := by
    rw [mem_grid3]
    exact ⟨Nat.one_pos, hi, hj⟩
  refine (scatter_hit_of_injOn hmem (by simp [fixpipeParams]) ?_).trans ?_
  · rintro ⟨nd, i', j'⟩ hj' heq
    rw [mem_grid3] at hj'
    simp only [fixpipeParams] at heq hj'
    have h0 : nd = 0 := by omega
    have hrow : i' = i := by omega
    have hcol : j' = j := by omega
    rw [h0, hrow, hcol]
  · have hparts : mode.kParts * 64 = mode.kDim := by cases mode <;> rfl
    rw [← hparts, ← h i hi j hj]
    simp [fixpipeParams]

omit [Semiring R] in
/-- The copy writes the 4096 elements of a slot and no others. -/
theorem fixpipe_outside {l0c dst : ℕ → R} {a : ℕ} (ha : 4096 ≤ a) :
    fixpipe fixpipeParams l0c dst a = dst a := by
  refine scatter_miss ?_
  rintro ⟨nd, i, j⟩ hj heq
  rw [mem_grid3] at hj
  simp only [fixpipeParams] at heq hj
  omega

/-! ## The commands of a task -/

/-- What a command of a task with tile `X` may rely on. -/
def AicOp.good (mode : KMode) (X : ℕ → ℕ → R) (op : AicOp) (m : AicMemory R) : Prop :=
  match op with
  | .loadKPartToL0A _ _ => Packed mode X m.l1
  | .loadKPartToL0B _ _ _ => Packed mode X m.l1
  | .mmad stage kPart initializeC =>
      HoldsA X kPart (m.l0a stage) ∧ HoldsB X kPart 4 (m.l0b stage) ∧
        (if initializeC then kPart = 0 else HoldsC X kPart m.l0c)
  | .commitWorkspace _ => HoldsC X mode.kParts m.l0c
  | _ => True

/-- The commands that act on buffers. -/
def AicOp.acts : AicOp → Bool
  | .clearSharedL1 => true
  | .copyOnePackedOperand => true
  | .loadKPartToL0A _ _ => true
  | .loadKPartToL0B _ _ _ => true
  | .mmad _ _ _ => true
  | .commitWorkspace _ => true
  | _ => false

theorem AicOp.good_of_not_acts (env : CubeEnv R) (task : AicTask) (X : ℕ → ℕ → R) (op : AicOp)
    (h : op.acts = false) (m : AicMemory R) : op.good env.mode X m ∧ op.act env task m = m := by
  cases op
  case clearSharedL1 => cases h
  case copyOnePackedOperand => cases h
  case loadKPartToL0A => cases h
  case loadKPartToL0B => cases h
  case mmad => cases h
  case commitWorkspace => cases h
  all_goals exact ⟨trivial, rfl⟩

/-- Between two K-parts: the tile is in L1, the first parts are in L0C, and the
workspace is untouched. -/
structure AfterParts (mode : KMode) (X : ℕ → ℕ → R) (p : ℕ) (w : ℕ → R) (m : AicMemory R) :
    Prop where
  packed : Packed mode X m.l1
  product : p ≠ 0 → HoldsC X p m.l0c
  workspace : m.workspace = w

/-- Inside a K-part: its rows are in L0A and its first `b` blocks in L0B. -/
structure Loaded (mode : KMode) (X : ℕ → ℕ → R) (p b stage : ℕ) (w : ℕ → R)
    (m : AicMemory R) : Prop extends AfterParts mode X p w m where
  rows : HoldsA X p (m.l0a stage)
  cols : HoldsB X p b (m.l0b stage)

section Part

variable {env : CubeEnv R} {task : AicTask} {p stage : ℕ} {w : ℕ → R}

/-- One block of columns. -/
theorem loaded_block {b : ℕ} (hp : p < env.mode.kParts) (hb : b < 4) {m : AicMemory R}
    (h : Loaded env.mode X p b stage w m) :
    (AicOp.loadKPartToL0B stage p b).good env.mode X m ∧
      Loaded env.mode X p (b + 1) stage w
        ((AicOp.loadKPartToL0B stage p b).act env task m) := by
  refine ⟨h.packed, ⟨⟨h.packed, h.product, h.workspace⟩, h.rows, ?_⟩⟩
  simp only [AicOp.act, Function.update_self]
  exact loadB_holds h.packed hp hb h.cols

/-- The product of a K-part; the first one starts from zero. -/
theorem loaded_mmad {initializeC : Bool} (hinit : initializeC = true ↔ p = 0)
    {m : AicMemory R} (h : Loaded env.mode X p 4 stage w m) :
    (AicOp.mmad stage p initializeC).good env.mode X m ∧
      AfterParts env.mode X (p + 1) w ((AicOp.mmad stage p initializeC).act env task m) := by
  have hc : if initializeC then p = 0 else HoldsC X p m.l0c := by
    by_cases h0 : initializeC = true
    · rw [if_pos h0]
      exact hinit.mp h0
    · rw [if_neg h0]
      exact h.product fun hp => h0 (hinit.mpr hp)
  have hnext := mmad_holds h.rows h.cols hc
  refine ⟨⟨h.rows, h.cols, hc⟩, ?_⟩
  constructor
  · simpa only [AicOp.act] using h.packed
  · intro _
    simpa only [AicOp.act] using hnext
  · simpa only [AicOp.act] using h.workspace

/-- The commands of a K-part that act on buffers, in both stages. -/
def partOps (stage p : ℕ) : List AicOp :=
  [.loadKPartToL0A stage p, .loadKPartToL0B stage p 0, .loadKPartToL0B stage p 1,
   .loadKPartToL0B stage p 2, .loadKPartToL0B stage p 3, .mmad stage p (p = 0)]

theorem acts_computeGram_k128 :
    (computeGram .k128).filter AicOp.acts = partOps 0 0 ++ partOps 1 1 := rfl

theorem acts_computeGram_k256 : (computeGram .k256).filter AicOp.acts =
    partOps 0 0 ++ (partOps 1 1 ++ (partOps 2 2 ++ partOps 3 3)) := rfl

/-- **One K-part**: loads and product. -/
theorem meets_part (hp : p < env.mode.kParts) :
    Meets (AicOp.act env task) (AicOp.good env.mode X) (AfterParts env.mode X p w)
      (partOps stage p) (AfterParts env.mode X (p + 1) w) := by
  have hrows : ∀ m, AfterParts env.mode X p w m →
      (AicOp.loadKPartToL0A stage p).good env.mode X m ∧
        Loaded env.mode X p 0 stage w ((AicOp.loadKPartToL0A stage p).act env task m) := by
    intro m h
    refine ⟨h.packed, ⟨⟨h.packed, h.product, h.workspace⟩, ?_, ?_⟩⟩
    · simp only [AicOp.act, Function.update_self]
      exact loadA_holds h.packed hp
    · intro k hk
      omega
  have hmmad : ∀ m, Loaded env.mode X p 4 stage w m →
      (AicOp.mmad stage p (p = 0)).good env.mode X m ∧
        AfterParts env.mode X (p + 1) w ((AicOp.mmad stage p (p = 0)).act env task m) :=
    fun m => loaded_mmad (by simp)
  exact .cons hrows (.cons (fun m => loaded_block hp (by omega))
    (.cons (fun m => loaded_block hp (by omega)) (.cons (fun m => loaded_block hp (by omega))
      (.cons (fun m => loaded_block hp (by omega)) (.cons hmmad .nil)))))

/-- **The Gram product of both stages**: from a packed tile to the complete product. -/
theorem meets_computeGram :
    Meets (AicOp.act env task) (AicOp.good env.mode X) (AfterParts env.mode X 0 w)
      (computeGram env.mode) (AfterParts env.mode X env.mode.kParts w) := by
  refine Meets.of_filter (AicOp.good_of_not_acts env task X) ?_
  have part : ∀ q < env.mode.kParts,
      Meets (AicOp.act env task) (AicOp.good env.mode X) (AfterParts env.mode X q w)
        (partOps q q) (AfterParts env.mode X (q + 1) w) := fun q hq => meets_part hq
  cases hmode : env.mode with
  | k128 =>
      rw [hmode] at part
      rw [acts_computeGram_k128]
      have h0 := part 0 (by decide)
      have h1 := part 1 (by decide)
      exact h0.append h1
  | k256 =>
      rw [hmode] at part
      rw [acts_computeGram_k256]
      exact (part 0 (by decide)).append ((part 1 (by decide)).append
        ((part 2 (by decide)).append (part 3 (by decide))))

end Part

/-! ## The committed slot -/

omit [Semiring R] in
/-- An instruction that leaves everything from `4096` on alone, applied to a slot,
leaves the rest of the workspace alone. -/
theorem into_outside {off a : ℕ} {f : (ℕ → R) → ℕ → R} {buf : ℕ → R}
    (hf : ∀ b i, 4096 ≤ i → f b i = b i) (ha : a < off ∨ off + 4096 ≤ a) :
    into off f buf a = buf a := by
  rcases ha with hlt | hge
  · exact into_lt hlt
  · rw [into_of_le (by omega), hf _ _ (by omega), slice]
    congr 1
    omega

/-- **The commit** writes the complete product to its slot, row-major with row stride
64, and nothing else. -/
theorem commit_gram (env : CubeEnv R) (task : AicTask) {m : AicMemory R}
    (h : HoldsC X env.mode.kParts m.l0c) (slotId : ℕ) :
    (∀ i < 64, ∀ j < 64, ((AicOp.commitWorkspace slotId).act env task m).workspace
      (slotOffset env.groupId slotId + (i * 64 + j)) = gram X env.mode.kDim i j) ∧
    ∀ a, a < slotOffset env.groupId slotId ∨ slotOffset env.groupId slotId + 4096 ≤ a →
      ((AicOp.commitWorkspace slotId).act env task m).workspace a = m.workspace a := by
  simp only [AicOp.act]
  constructor
  · intro i hi j hj
    rw [into_add]
    exact commit_holds h _ hi hj
  · intro a ha
    exact into_outside (fun _ _ hi => fixpipe_outside hi) ha

/-- **Gram from the packed tile.**  Whatever the other buffers hold, the product and
the commit of either stage leave `tile[i][j] = ∑ c, X[i][c] * X[j][c]` in the slot and
the rest of the workspace unchanged. -/
theorem gram_from_packed (env : CubeEnv R) (task : AicTask) (X : ℕ → ℕ → R) (slotId : ℕ)
    (m : AicMemory R)
    (hpacked : ∀ r < 64, ∀ c < env.mode.kDim, m.l1 (c / 16 * (64 * 16) + r * 16 + c % 16) = X r c) :
    (∀ i < 64, ∀ j < 64,
      (runOps env task (computeGram env.mode ++ [.commitWorkspace slotId]) m).workspace
        ((env.groupId * 2 + slotId) * 4096 + (i * 64 + j)) =
          ∑ c ∈ Finset.range env.mode.kDim, X i c * X j c) ∧
    ∀ a, a < (env.groupId * 2 + slotId) * 4096 ∨ (env.groupId * 2 + slotId) * 4096 + 4096 ≤ a →
      (runOps env task (computeGram env.mode ++ [.commitWorkspace slotId]) m).workspace a =
        m.workspace a := by
  have hrun : runOps env task (computeGram env.mode ++ [.commitWorkspace slotId]) m =
      (AicOp.commitWorkspace slotId).act env task (runOps env task (computeGram env.mode) m) := by
    simp only [runOps, List.foldl_append, List.foldl_cons, List.foldl_nil]
  have hpre : AfterParts env.mode X 0 m.workspace m :=
    ⟨hpacked, fun h => absurd rfl h, rfl⟩
  have hmeets : Meets (AicOp.act env task) (AicOp.good env.mode X)
      (AfterParts env.mode X 0 m.workspace) (computeGram env.mode)
      (AfterParts env.mode X env.mode.kParts m.workspace) := meets_computeGram
  obtain ⟨-, hgram⟩ := hmeets m hpre
  have hparts : env.mode.kParts ≠ 0 := by cases env.mode <;> decide
  obtain ⟨hslot, hrest⟩ := commit_gram env task (hgram.product hparts) slotId
  rw [hrun]
  refine ⟨hslot, ?_⟩
  intro a ha
  have hw : (runOps env task (computeGram env.mode) m).workspace = m.workspace := hgram.workspace
  rw [← hw]
  exact hrest a ha

/-- Buffers whose packed tile holds its row number in every column. -/
def rowMemory : AicMemory ℤ where
  l1 a := ((a % 1024 / 16 : ℕ) : ℤ)
  l0a _ _ := 7
  l0b _ _ := 7
  l0c _ := 7
  workspace _ := 7

theorem gram_from_packed_rows :
    (runOps ⟨.k256, 3, 5, fun _ => 0⟩ ⟨true, 0, 64⟩ (computeGram .k256 ++ [.commitWorkspace 1])
      rowMemory).workspace ((5 * 2 + 1) * 4096 + (2 * 64 + 3)) =
        ∑ _c ∈ Finset.range 256, ((2 : ℕ) : ℤ) * ((3 : ℕ) : ℤ) :=
  (gram_from_packed ⟨.k256, 3, 5, fun _ => 0⟩ ⟨true, 0, 64⟩ (fun r _ => (r : ℤ)) 1 rowMemory
    (by intro r hr c hc; simp only [rowMemory]; omega)).1 2 (by decide) 3 (by decide)

end ChunkScaledDotKkt
