import ChunkScaledDotKkt.Vector.HeadFactor
import Mathlib.Data.Rat.Defs
import Mathlib.Algebra.Order.Ring.Rat
import Mathlib.Tactic.Linarith

/-!
# The arguments of the exponential

Every `Exp` that the factor stage evaluates, with the element it is for and its
argument.  The stage factors `exp (g i - g j)` as `exp (g i) * exp (- g j)` without a
centre, so the arguments are the gates themselves and their negations.

## Main results

* `prepareHeadFactor_expEvals`, `prepareHeadPairFactor_expEvals` — the arguments, in
  order.
* `not_factorsBounded` — a direct argument in range does not keep them in range.
* `exp_range` — the gates for which they are in range.
-/

namespace ChunkScaledDotKkt

open VectorStage

/-- One evaluation of `Exp`: the element it is written to and its argument. -/
structure ExpEval (F : Type) where
  dst : UbRef
  arg : F

section

variable {F : Type}

/-- The evaluations of an `Exp` over a region. -/
def evalsOf (dst : UbRef) (n : ℕ) (arg : ℕ → F) : List (ExpEval F) :=
  (List.range n).map fun i => ⟨⟨dst.buf, dst.off + i⟩, arg i⟩

theorem mem_evalsOf {dst : UbRef} {n : ℕ} {arg : ℕ → F} {eval : ExpEval F} :
    eval ∈ evalsOf dst n arg ↔ ∃ i < n, eval = ⟨⟨dst.buf, dst.off + i⟩, arg i⟩ := by
  simp [evalsOf, eq_comm]

def LaneOp.expEvals (op : LaneOp) (m : LaneMemory F) : List (ExpEval F) :=
  match op with
  | .vector (.exp dst src n) => evalsOf dst n (m.read src)
  | _ => []

def LaneOp.isExp : LaneOp → Bool
  | .vector (.exp _ _ _) => true
  | _ => false

/-- The values that the facts give for the operand. -/
theorem LaneOp.expEvals_of_fact {m : LaneMemory F} {dst src : UbRef} {n k : ℕ} {f : ℕ → F}
    (h : (Fact.tensor src k f).Holds m) (hn : n ≤ k) :
    (LaneOp.vector (.exp dst src n)).expEvals m = evalsOf dst n f := by
  apply List.map_congr_left
  intro i hi
  rw [List.mem_range] at hi
  rw [← h i (by omega)]
  rfl

end

section

variable {F : Type} [CommRing F] [LinearOrder F]

/-- The evaluations of a program, in order. -/
def expEvals (env : LaneEnv F) : List LaneOp → LaneMemory F → List (ExpEval F)
  | [], _ => []
  | op :: ops, m => op.expEvals m ++ expEvals env ops (op.act env m)

variable {env : LaneEnv F} {m : LaneMemory F}

theorem expEvals_append (ops ops' : List LaneOp) :
    expEvals env (ops ++ ops') m = expEvals env ops m ++ expEvals env ops' (runLane env ops m) := by
  induction ops generalizing m with
  | nil => rfl
  | cons op ops ih => simp [expEvals, ih, runLane]

/-- Commands without `Exp` evaluate nothing. -/
theorem expEvals_eq_nil {ops : List LaneOp} (h : ∀ op ∈ ops, op.isExp = false) :
    expEvals env ops m = [] := by
  induction ops generalizing m with
  | nil => rfl
  | cons op ops ih =>
      have hop : op.expEvals m = [] := by
        have hno := h op (by simp)
        cases op with
        | vector instr => cases instr <;> first | rfl | cases hno
        | _ => rfl
      rw [expEvals, hop, ih fun op' hop' => h op' (by simp [hop'])]
      rfl

theorem expEvals_cons (op : LaneOp) (ops : List LaneOp) :
    expEvals env (op :: ops) m = op.expEvals m ++ expEvals env ops (op.act env m) := rfl

/-- A command after others without `Exp`. -/
theorem expEvals_skip {pre post : List LaneOp} {op : LaneOp}
    (hpre : ∀ op ∈ pre, op.isExp = false) :
    expEvals env (pre ++ op :: post) m =
      op.expEvals (runLane env pre m) ++ expEvals env post (op.act env (runLane env pre m)) := by
  rw [expEvals_append, expEvals_eq_nil hpre, List.nil_append, expEvals_cons]

/-! ## The factor stages -/

/-- The gate tensor in use. -/
def LaneMemory.gate (m : LaneMemory F) (h j : ℕ) : F := m.f32 (.gate .current) (h * 64 + j)

/-- A head of a batch over whatever the tensors hold. -/
def HeadTile.ofMemory (m : LaneMemory F) (paired : Bool) (h out : ℕ)
    {chunkLen rowStart rowCount : ℕ}
    (hlen : chunkLen ≤ 64) (hrows : rowStart + rowCount ≤ 64) : HeadTile F where
  paired := paired
  head := h
  out := out
  chunkLen := chunkLen
  rowStart := rowStart
  rowCount := rowCount
  g := m.gate h
  beta j := m.f32 (.beta .current) (h * 64 + j)
  kkt := m.f32 .kkt
  chunkLen_le := hlen
  rows_le := hrows

theorem HeadTile.ofMemory_inputs (m : LaneMemory F) (paired : Bool) (h out : ℕ)
    {chunkLen rowStart rowCount : ℕ} (hlen : chunkLen ≤ 64) (hrows : rowStart + rowCount ≤ 64) :
    (laneLogic env).Sat (HeadTile.ofMemory m paired h out hlen hrows).inputs m := by
  simp only [HeadTile.inputs, FactLogic.sat_cons, FactLogic.sat_nil, and_true]
  refine ⟨fun _ _ => rfl, fun _ _ => rfl, fun a _ => ?_⟩
  exact congrArg (m.f32 .kkt) (Nat.zero_add a)

/-- **`PrepareHeadFactor`** evaluates `-g j` for the columns of the chunk and `g i` for the rows of
the lane. -/
theorem prepareHeadFactor_expEvals (env : LaneEnv F) (m : LaneMemory F)
    {chunkLen rowStart rowCount : ℕ} (hlen : chunkLen ≤ 64) (hrows : rowStart + rowCount ≤ 64)
    (out : ℕ) :
    expEvals env (prepareHeadFactor chunkLen rowStart rowCount out) m =
      evalsOf ⟨.negGSingle, 0⟩ chunkLen (fun j => -m.gate 0 j) ++
        evalsOf ⟨.output, out⟩ rowCount (fun i => m.gate 0 (rowStart + i)) := by
  let x := HeadTile.ofMemory m false 0 out hlen hrows
  have hin : (laneLogic env).Sat x.inputs m := HeadTile.ofMemory_inputs m false 0 out hlen hrows
  let pre : List LaneOp := [.vector (.mulsNegOne ⟨.negGSingle, 0⟩ ⟨.gate .current, 0⟩ 64),
    .vector (.brcb ⟨.scratch, 0⟩ ⟨.gate .current, rowStart⟩ (rowBrcbRepeats rowCount)),
    .launchReadyOutput, .pipeBarrierV,
    .vector (.compareLT ⟨.single, 0⟩ ⟨.scratch, 0⟩ ⟨.gate .current, 0⟩ (rowRepeats rowCount))]
  have hpre : (laneLogic env).Triple x.inputs pre [x.negG, x.gateFact] := by
    refine .cons (x.negG_step env 64 (Nat.le_refl 64)) (.weaken (.frame ?_) ?_
      (List.Subset.refl _))
    · simp [HeadTile.negG, HeadTile.gateFact, HeadTile.negGBuf, x, HeadTile.ofMemory]
    · simp [HeadTile.inputs]
  let column : LaneOp := .vector (.exp ⟨.negGSingle, 0⟩ ⟨.negGSingle, 0⟩ chunkLen)
  let row : LaneOp := .vector (.exp ⟨.output, out⟩ ⟨.gate .current, rowStart⟩ rowCount)
  let post : List LaneOp := [.vector (.cast ⟨.scratch, 0⟩ ⟨.beta .current, rowStart⟩ rowCount),
    .pipeBarrierV, .vector (.mul ⟨.output, out⟩ ⟨.output, out⟩ ⟨.scratch, 0⟩ rowCount),
    .pipeBarrierV, .vector (.brcb ⟨.scratch, 0⟩ ⟨.output, out⟩ (rowBrcbRepeats rowCount)),
    .pipeBarrierV,
    .vector (.mulRows ⟨.output, out⟩ ⟨.negGSingle, 0⟩ ⟨.scratch, 0⟩ (rowRepeats rowCount)),
    .pipeBarrierV, .vector (.select ⟨.output, out⟩ ⟨.single, 0⟩ ⟨.output, out⟩ (rowCount * 64)),
    .pipeBarrierV]
  have hsplit : prepareHeadFactor chunkLen rowStart rowCount out =
      pre ++ column :: ([.pipeBarrierV] ++ row :: post) := rfl
  have hgate : (laneLogic env).Triple [x.negG, x.gateFact] [column, .pipeBarrierV]
      [x.gateFact] := by
    refine .weaken (.frame ?_) (by simp) (List.Subset.refl _)
    simp [HeadTile.gateFact, column]
  have hcolumns := hpre m hin
  have hrow := hgate _ hcolumns
  rw [FactLogic.sat_cons] at hcolumns hrow
  have hfact : (Fact.tensor ⟨.gate .current, rowStart⟩ rowCount fun i =>
      m.gate 0 (rowStart + i)).Holds
        (runLane env [.pipeBarrierV] (column.act env (runLane env pre m))) :=
    Fact.Holds.part hrow.1 (by change rowStart = 0 * 64 + rowStart; omega) hrows
  have hneg : (Fact.tensor ⟨.negGSingle, 0⟩ 64 fun j => -m.gate 0 j).Holds (runLane env pre m) :=
    hcolumns.1
  rw [hsplit, expEvals_skip (by simp [pre, LaneOp.isExp]),
    expEvals_skip (by simp [LaneOp.isExp]), expEvals_eq_nil (by simp [post, LaneOp.isExp]),
    List.append_nil, LaneOp.expEvals_of_fact hneg hlen,
    LaneOp.expEvals_of_fact hfact (Nat.le_refl rowCount)]

/-- **`PrepareHeadPairFactor`** does the same for both heads. -/
theorem prepareHeadPairFactor_expEvals (env : LaneEnv F) (m : LaneMemory F)
    {chunkLen rowCount : ℕ} (hlen : chunkLen ≤ 64) (hrows : rowCount ≤ 64) (out0 out1 : ℕ) :
    expEvals env (prepareHeadPairFactor chunkLen rowCount out0 out1) m =
      evalsOf ⟨.negGPair, 0⟩ chunkLen (fun j => -m.gate 0 j) ++
        (evalsOf ⟨.negGPair, 64⟩ chunkLen (fun j => -m.gate 1 j) ++
        (evalsOf ⟨.output, out0⟩ rowCount (m.gate 0) ++
          evalsOf ⟨.output, out1⟩ rowCount (m.gate 1))) := by
  let negG : ℕ → Fact F := fun h => .tensor ⟨.negGPair, h * 64⟩ 64 fun j => -m.gate h j
  let gate : ℕ → Fact F := fun h => .tensor ⟨.gate .current, h * 64⟩ 64 (m.gate h)
  let column : ℕ → LaneOp := fun h =>
    .vector (.exp ⟨.negGPair, h * 64⟩ ⟨.negGPair, h * 64⟩ chunkLen)
  let row : ℕ → ℕ → LaneOp := fun h out =>
    .vector (.exp ⟨.output, out⟩ ⟨.gate .current, h * 64⟩ rowCount)
  let pre : List LaneOp := [.vector (.mulsNegOne ⟨.negGPair, 0⟩ ⟨.gate .current, 0⟩ (2 * 64))] ++
    ((if rowCount = 64 then [.vector (.brcb ⟨.scratch, 0⟩ ⟨.gate .current, 0⟩ 16)]
      else [.vector (.brcb ⟨.scratch, 0⟩ ⟨.gate .current, 0⟩ (rowBrcbRepeats rowCount)),
        .vector (.brcb ⟨.scratch, 64 * 8⟩ ⟨.gate .current, 64⟩ (rowBrcbRepeats rowCount))]) ++
    [.pipeBarrierV,
      .vector (.compareLT ⟨.pair, 0⟩ ⟨.scratch, 0⟩ ⟨.gate .current, 0⟩ (rowRepeats rowCount)),
      .vector (.compareLT ⟨.pair, 4096⟩ ⟨.scratch, 64 * 8⟩ ⟨.gate .current, 64⟩
        (rowRepeats rowCount))])
  let mid : List LaneOp := [.launchReadyOutput, .pipeBarrierV,
    .vector (.cast ⟨.scratch, 0⟩ ⟨.beta .current, 0⟩ (2 * 64))]
  have hneg : ∀ h, h = 0 ∨ h = 1 → (laneLogic env).Triple [gate 0, gate 1]
      [.vector (.mulsNegOne ⟨.negGPair, 0⟩ ⟨.gate .current, 0⟩ (2 * 64))]
      (negG h :: [gate 0, gate 1]) := by
    intro h hh
    refine instr_triple (fun s hs => ?_) (List.Subset.refl _) (by simp [gate])
    have hgate : (gate h).Holds s := hs (gate h) (by cases hh <;> simp [*])
    exact VectorInstr.mulsNegOne_holds (d := h * 64) hgate (Nat.zero_add _).symm
      (Nat.zero_add _).symm (by omega)
  have hpre : (laneLogic env).Triple [gate 0, gate 1] pre [negG 0, negG 1, gate 0, gate 1] := by
    refine .append (((hneg 0 (Or.inl rfl)).and (hneg 1 (Or.inr rfl))).weaken (List.Subset.refl _)
      (by simp)) (.frame ?_)
    by_cases hfull : rowCount = 64 <;> simp [negG, gate, hfull]
  have hin : (laneLogic env).Sat [gate 0, gate 1] m := by
    simp only [FactLogic.sat_cons, FactLogic.sat_nil, and_true]
    exact ⟨fun _ _ => rfl, fun _ _ => rfl⟩
  have hcolumn0 : (laneLogic env).Triple [negG 0, negG 1, gate 0, gate 1] [column 0]
      [negG 1, gate 0, gate 1] := by
    refine .weaken (.frame ?_) (by simp) (List.Subset.refl _)
    simp [negG, gate, column, hlen]
  have hcolumn1 : (laneLogic env).Triple [negG 1, gate 0, gate 1] [column 1] [gate 0, gate 1] := by
    refine .weaken (.frame ?_) (by simp) (List.Subset.refl _)
    simp [gate, column]
  have hmid : (laneLogic env).Triple [gate 0, gate 1] mid [gate 0, gate 1] := by
    refine .frame ?_
    simp [gate, mid]
  have hrow0 : (laneLogic env).Triple [gate 0, gate 1] [row 0 out0] [gate 0, gate 1] := by
    refine .frame ?_
    simp [gate, row]
  -- the facts before each of the four evaluations
  have h0 := hpre m hin
  have h1 := hcolumn0 _ h0
  have h2 := hmid _ (hcolumn1 _ h1)
  have h3 := hrow0 _ h2
  simp only [FactLogic.sat_cons, run_laneLogic] at h0 h1 h2 h3
  let post : List LaneOp := [.pipeBarrierV,
    .vector (.mul ⟨.output, out0⟩ ⟨.output, out0⟩ ⟨.scratch, 0⟩ rowCount),
    .vector (.mul ⟨.output, out1⟩ ⟨.output, out1⟩ ⟨.scratch, 64⟩ rowCount), .pipeBarrierV,
    .vector (.brcb ⟨.scratch, 0⟩ ⟨.output, out0⟩ (rowBrcbRepeats rowCount)),
    .vector (.brcb ⟨.scratch, 64 * 8⟩ ⟨.output, out1⟩ (rowBrcbRepeats rowCount)), .pipeBarrierV,
    .vector (.mulRows ⟨.output, out0⟩ ⟨.negGPair, 0⟩ ⟨.scratch, 0⟩ (rowRepeats rowCount)),
    .vector (.mulRows ⟨.output, out1⟩ ⟨.negGPair, 64⟩ ⟨.scratch, 64 * 8⟩ (rowRepeats rowCount)),
    .pipeBarrierV,
    .vector (.select ⟨.output, out0⟩ ⟨.pair, 0⟩ ⟨.output, out0⟩ (rowCount * 64)),
    .vector (.select ⟨.output, out1⟩ ⟨.pair, 4096⟩ ⟨.output, out1⟩ (rowCount * 64)),
    .pipeBarrierV]
  have hsplit : prepareHeadPairFactor chunkLen rowCount out0 out1 =
      pre ++ column 0 :: column 1 :: (mid ++ row 0 out0 :: row 1 out1 :: post) := by
    simp [prepareHeadPairFactor, pre, mid, post, column, row, MachineInt.u8]
  have hquiet : ∀ op ∈ pre, op.isExp = false := by
    by_cases hfull : rowCount = 64 <;> simp [pre, hfull, LaneOp.isExp]
  have hcol1 : (negG 1).Holds ((column 0).act env (runLane env pre m)) := h1.1
  have hgate0 : (gate 0).Holds
      (runLane env mid ((column 1).act env ((column 0).act env (runLane env pre m)))) := h2.1
  have hgate1 : (gate 1).Holds ((row 0 out0).act env
      (runLane env mid ((column 1).act env ((column 0).act env (runLane env pre m))))) := h3.2.1
  rw [hsplit, expEvals_skip hquiet, expEvals_cons, expEvals_skip (by simp [mid, LaneOp.isExp]),
    expEvals_cons, expEvals_eq_nil (by simp [post, LaneOp.isExp]), List.append_nil,
    LaneOp.expEvals_of_fact h0.1 hlen, LaneOp.expEvals_of_fact hcol1 hlen,
    LaneOp.expEvals_of_fact hgate0 hrows, LaneOp.expEvals_of_fact hgate1 hrows]

end

/-! ## Their range -/

/-- For every element of the tile that the mask keeps, the exponentials that its row factor and
its column factor are made of have arguments up to `bound`. -/
def FactorsBounded (bound : ℚ) (evals : List (ExpEval ℚ)) (g : ℕ → ℚ)
    (chunkLen rowStart rowCount : ℕ) (rows columns : UbRef) : Prop :=
  ∀ i < rowCount, ∀ j < chunkLen, g (rowStart + i) < g j → ∀ eval ∈ evals,
    eval.dst = ⟨rows.buf, rows.off + i⟩ ∨ eval.dst = ⟨columns.buf, columns.off + j⟩ →
      eval.arg ≤ bound

/-- Every gate of the rows that is less than some gate of the chunk is at most `bound`, and every
gate of the chunk that is greater than some gate of the rows is at least `-bound`. -/
def GatesBounded (bound : ℚ) (g : ℕ → ℚ) (chunkLen rowStart rowCount : ℕ) : Prop :=
  (∀ i < rowCount, (∃ j < chunkLen, g (rowStart + i) < g j) → g (rowStart + i) ≤ bound) ∧
  ∀ j < chunkLen, (∃ i < rowCount, g (rowStart + i) < g j) → -bound ≤ g j

/-- Gates between `-bound` and `bound` are bounded. -/
theorem GatesBounded.of_abs {bound : ℚ} {g : ℕ → ℚ} {chunkLen rowStart rowCount : ℕ}
    (hrows : ∀ i < rowCount, g (rowStart + i) ≤ bound) (hcolumns : ∀ j < chunkLen, -bound ≤ g j) :
    GatesBounded bound g chunkLen rowStart rowCount :=
  ⟨fun i hi _ => hrows i hi, fun j hj _ => hcolumns j hj⟩

/-- Evaluations of which those for the rows and columns in question are known. -/
theorem factorsBounded_iff {bound : ℚ} {evals : List (ExpEval ℚ)} {g : ℕ → ℚ}
    {chunkLen rowStart rowCount : ℕ} {rows columns : UbRef}
    (hrow : ∀ i < rowCount, ∀ arg, ⟨⟨rows.buf, rows.off + i⟩, arg⟩ ∈ evals ↔
      arg = g (rowStart + i))
    (hcolumn : ∀ j < chunkLen, ∀ arg, ⟨⟨columns.buf, columns.off + j⟩, arg⟩ ∈ evals ↔
      arg = -g j) :
    FactorsBounded bound evals g chunkLen rowStart rowCount rows columns ↔
      GatesBounded bound g chunkLen rowStart rowCount := by
  constructor
  · intro h
    refine ⟨fun i hi hex => ?_, fun j hj hex => ?_⟩
    · obtain ⟨j, hj, hlt⟩ := hex
      exact h i hi j hj hlt _ ((hrow i hi _).mpr rfl) (Or.inl rfl)
    · obtain ⟨i, hi, hlt⟩ := hex
      have hle := h i hi j hj hlt _ ((hcolumn j hj _).mpr rfl) (Or.inr rfl)
      simp only at hle
      linarith
  · intro h i hi j hj hlt eval heval hdst
    obtain ⟨dst, arg⟩ := eval
    cases hdst with
    | inl hdst =>
        simp only at hdst
        subst hdst
        rw [hrow i hi] at heval
        rw [heval]
        exact h.1 i hi ⟨j, hj, hlt⟩
    | inr hdst =>
        simp only at hdst
        subst hdst
        rw [hcolumn j hj] at heval
        have hge := h.2 j hj ⟨i, hi, hlt⟩
        simp only [heval]
        linarith

section

variable {F : Type} {buf buf' : UbBuf} {off off' n n' i : ℕ} {f : ℕ → F} {arg : F}

/-- An element of a region is evaluated once. -/
theorem mem_evalsOf_at (hi : i < n) :
    ⟨⟨buf, off + i⟩, arg⟩ ∈ evalsOf ⟨buf, off⟩ n f ↔ arg = f i := by
  rw [mem_evalsOf]
  constructor
  · intro ⟨i', hi', heq⟩
    simp only [ExpEval.mk.injEq, UbRef.mk.injEq, true_and, Nat.add_left_cancel_iff] at heq
    rw [heq.2, heq.1]
  · intro harg
    exact ⟨i, hi, by rw [harg]⟩

/-- Elements of another tensor, or of another part of it, are not evaluated. -/
theorem not_mem_evalsOf (hapart : UbRef.Apart ⟨buf', off'⟩ n' ⟨buf, off⟩ n) (hi : i < n') :
    ⟨⟨buf', off' + i⟩, arg⟩ ∉ evalsOf ⟨buf, off⟩ n f := by
  rw [mem_evalsOf]
  intro ⟨i', hi', heq⟩
  simp only [ExpEval.mk.injEq, UbRef.mk.injEq] at heq
  simp only [UbRef.Apart] at hapart
  rcases hapart with hbuf | hoff | hoff
  · exact hbuf heq.1.1
  · omega
  · omega

end

/-- **The range of the exponentials.**  The factor stages exponentiate the gate of a row and the
negated gate of a column as they are; they evaluate no exponential beyond `bound` for an element
that the mask keeps exactly when the gates are bounded. -/
theorem exp_range (env : LaneEnv ℚ) (m : LaneMemory ℚ) (bound : ℚ) {chunkLen : ℕ}
    (hlen : chunkLen ≤ 64) :
    (∀ rowStart rowCount out, rowStart + rowCount ≤ 64 →
      let evals := expEvals env (prepareHeadFactor chunkLen rowStart rowCount out) m
      evals = evalsOf ⟨.negGSingle, 0⟩ chunkLen (fun j => -m.gate 0 j) ++
        evalsOf ⟨.output, out⟩ rowCount (fun i => m.gate 0 (rowStart + i)) ∧
      (FactorsBounded bound evals (m.gate 0) chunkLen rowStart rowCount ⟨.output, out⟩
        ⟨.negGSingle, 0⟩ ↔ GatesBounded bound (m.gate 0) chunkLen rowStart rowCount)) ∧
    (∀ rowCount out0 out1, rowCount ≤ 64 → out0 + 4096 ≤ out1 ∨ out1 + 4096 ≤ out0 →
      let evals := expEvals env (prepareHeadPairFactor chunkLen rowCount out0 out1) m
      evals = evalsOf ⟨.negGPair, 0⟩ chunkLen (fun j => -m.gate 0 j) ++
        (evalsOf ⟨.negGPair, 64⟩ chunkLen (fun j => -m.gate 1 j) ++
        (evalsOf ⟨.output, out0⟩ rowCount (m.gate 0) ++
          evalsOf ⟨.output, out1⟩ rowCount (m.gate 1))) ∧
      (FactorsBounded bound evals (m.gate 0) chunkLen 0 rowCount ⟨.output, out0⟩ ⟨.negGPair, 0⟩ ↔
        GatesBounded bound (m.gate 0) chunkLen 0 rowCount) ∧
      (FactorsBounded bound evals (m.gate 1) chunkLen 0 rowCount ⟨.output, out1⟩ ⟨.negGPair, 64⟩ ↔
        GatesBounded bound (m.gate 1) chunkLen 0 rowCount)) := by
  constructor
  · intro rowStart rowCount out hrows evals
    have hevals : evals = _ := prepareHeadFactor_expEvals env m hlen hrows out
    refine ⟨hevals, ?_⟩
    rw [hevals]
    apply factorsBounded_iff
    · intro i hi arg
      rw [List.mem_append, or_iff_right (not_mem_evalsOf (by simp) hi)]
      exact mem_evalsOf_at hi
    · intro j hj arg
      rw [List.mem_append, or_iff_left (not_mem_evalsOf (by simp) hj)]
      exact mem_evalsOf_at hj
  · intro rowCount out0 out1 hrows hout evals
    have hevals : evals = _ := prepareHeadPairFactor_expEvals env m hlen hrows out0 out1
    refine ⟨hevals, ?_⟩
    rw [hevals]
    constructor
    · apply factorsBounded_iff
      · intro i hi arg
        rw [List.mem_append, List.mem_append, List.mem_append,
          or_iff_right (not_mem_evalsOf (by simp) hi), or_iff_right (not_mem_evalsOf (by simp) hi),
          or_iff_left (not_mem_evalsOf (by simp; omega) hi), mem_evalsOf_at hi, Nat.zero_add]
      · intro j hj arg
        rw [List.mem_append, List.mem_append, List.mem_append, mem_evalsOf_at hj,
          or_iff_left]
        simp only [not_or]
        exact ⟨not_mem_evalsOf (by simp; omega) hj, not_mem_evalsOf (by simp) hj,
          not_mem_evalsOf (by simp) hj⟩
    · apply factorsBounded_iff
      · intro i hi arg
        rw [List.mem_append, List.mem_append, List.mem_append,
          or_iff_right (not_mem_evalsOf (by simp) hi), or_iff_right (not_mem_evalsOf (by simp) hi),
          or_iff_right (not_mem_evalsOf (by simp; omega) hi), mem_evalsOf_at hi, Nat.zero_add]
      · intro j hj arg
        rw [List.mem_append, List.mem_append, List.mem_append,
          or_iff_right (not_mem_evalsOf (by simp; omega) hj), mem_evalsOf_at hj, or_iff_left]
        simp only [not_or]
        exact ⟨not_mem_evalsOf (by simp) hj, not_mem_evalsOf (by simp) hj⟩

/-! ### A chunk of two tokens -/

/-- The gate of the first token of a head and that of all others. -/
def twoGates (first second : ℚ) : LaneMemory ℚ where
  f32 buf a := if buf = .gate .current then (if a = 0 then first else second) else 0
  mask _ _ := false

/-- A lane over the rationals; no value of `exp` is needed. -/
def rationalEnv : LaneEnv ℚ where
  t := 64
  gGm _ := 0
  betaGm _ := 0
  kktWorkspace _ := 0
  exp _ := 1

/-- With gates 10 and 20 no argument passes 88. -/
theorem exp_range_smallGates :
    FactorsBounded 88 (expEvals rationalEnv (prepareHeadFactor 2 0 2 0) (twoGates 10 20))
      ((twoGates 10 20).gate 0) 2 0 2 ⟨.output, 0⟩ ⟨.negGSingle, 0⟩ := by
  refine (((exp_range rationalEnv (twoGates 10 20) 88 (by decide)).1 0 2 0 (by decide)).2).mpr
    (GatesBounded.of_abs ?_ ?_)
  · intro i _
    simp only [LaneMemory.gate, twoGates, if_true]
    split <;> norm_num
  · intro j _
    simp only [LaneMemory.gate, twoGates, if_true]
    split <;> norm_num

/-- With gates 100 and 101 the direct argument is -1, but the exponential of 100 is
evaluated. -/
theorem not_factorsBounded :
    ¬ FactorsBounded 88 (expEvals rationalEnv (prepareHeadFactor 2 0 2 0) (twoGates 100 101))
      ((twoGates 100 101).gate 0) 2 0 2 ⟨.output, 0⟩ ⟨.negGSingle, 0⟩ := by
  intro h
  rw [prepareHeadFactor_expEvals rationalEnv (twoGates 100 101) (by decide) (by decide) 0] at h
  have hrow : (⟨⟨.output, 0 + 0⟩, (twoGates 100 101).gate 0 (0 + 0)⟩ : ExpEval ℚ) ∈
      evalsOf ⟨.output, 0⟩ 2 fun i => (twoGates 100 101).gate 0 (0 + i) :=
    (mem_evalsOf_at (by decide)).mpr rfl
  have hlt : (twoGates 100 101).gate 0 (0 + 0) < (twoGates 100 101).gate 0 1 := by
    norm_num [LaneMemory.gate, twoGates]
  have hle := h 0 (by decide) 1 (by decide) hlt _ (List.mem_append_right _ hrow) (Or.inl rfl)
  norm_num [LaneMemory.gate, twoGates] at hle

end ChunkScaledDotKkt
