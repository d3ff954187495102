import ChunkScaledDotKkt.Vector.Region

/-!
# The factor of a head

The instructions of `PrepareHeadFactor` and `PrepareHeadPairFactor` seen from one
head: the column factors in the negated gate, the row factors in the output prefix,
two row broadcasts through one scratch, the bit mask, and the product.  Each step is
a triple on the facts about this head; the steps of a pair's other head are passed
over.
-/

namespace ChunkScaledDotKkt

open MachineInt VectorStage

/-- A head in work: where its tensors are and what its inputs hold, gate and beta
padded to 64 elements. -/
structure HeadTile (F : Type) where
  paired : Bool
  /-- Position in the batch. -/
  head : ℕ
  out : ℕ
  chunkLen : ℕ
  rowStart : ℕ
  rowCount : ℕ
  g : ℕ → F
  beta : ℕ → F
  kkt : ℕ → F
  chunkLen_le : chunkLen ≤ 64
  rows_le : rowStart + rowCount ≤ 64

namespace HeadTile

variable {F : Type} (x : HeadTile F)

def negGBuf : UbBuf := if x.paired then .negGPair else .negGSingle

def maskBuf : MaskBuf := if x.paired then .pair else .single

/-! ## Facts about the head's tensors -/

def gateFact : Fact F := .tensor ⟨.gate .current, x.head * 64⟩ 64 x.g

def betaFact : Fact F := .tensor ⟨.beta .current, x.head * 64⟩ 64 x.beta

def kktFact : Fact F := .tensor ⟨.kkt, 0⟩ (x.rowCount * 64) x.kkt

/-- What the factor stage starts from. -/
def inputs : List (Fact F) := [x.gateFact, x.betaFact, x.kktFact]

/-- The gate of each row, in a block of 8. -/
def gateRows : Fact F :=
  .tensor ⟨.scratch, x.head * 512⟩ (x.rowCount * 8) fun a => x.g (x.rowStart + a / 8)

def betaCast : Fact F :=
  .tensor ⟨.scratch, x.head * 64⟩ x.rowCount fun i => x.beta (x.rowStart + i)

section

variable [CommRing F] [LinearOrder F] (exp : F → F)

def negG : Fact F := .tensor ⟨x.negGBuf, x.head * 64⟩ 64 fun j => -x.g j

/-- Where the gate of the row is less than the gate of the column. -/
def less (a : ℕ) : Bool := decide (x.g (x.rowStart + a / 64) < x.g (a % 64))

def maskFact : Fact F := .mask ⟨x.maskBuf, x.head * 4096⟩ (x.rowCount * 64) x.less

/-- `exp (-g j)` in the columns of the chunk, the negated gate beyond. -/
def column (j : ℕ) : F := if j < x.chunkLen then exp (-x.g j) else -x.g j

def columns : Fact F := .tensor ⟨x.negGBuf, x.head * 64⟩ 64 (x.column exp)

def expRows : Fact F :=
  .tensor ⟨.output, x.out⟩ x.rowCount fun i => exp (x.g (x.rowStart + i))

/-- `beta i * exp (g i)` -/
def rowFactor (i : ℕ) : F := exp (x.g (x.rowStart + i)) * x.beta (x.rowStart + i)

def rowFactors : Fact F := .tensor ⟨.output, x.out⟩ x.rowCount (x.rowFactor exp)

def spreadFactors : Fact F :=
  .tensor ⟨.scratch, x.head * 512⟩ (x.rowCount * 8) fun a => x.rowFactor exp (a / 8)

def product : Fact F :=
  .tensor ⟨.output, x.out⟩ (x.rowCount * 64) fun a =>
    x.column exp (a % 64) * x.rowFactor exp (a / 64)

/-- The masked factor of an element of the tile. -/
def factor (a : ℕ) : F :=
  if x.less a then x.column exp (a % 64) * x.rowFactor exp (a / 64) else 0

def factorFact : Fact F := .tensor ⟨.output, x.out⟩ (x.rowCount * 64) (x.factor exp)

def resultFact : Fact F :=
  .tensor ⟨.output, x.out⟩ (x.rowCount * 64) fun a => x.kkt a * x.factor exp a

end

/-! ## Single instructions -/

section

variable [CommRing F] [LinearOrder F] (env : LaneEnv F)

/-- `Muls` by -1. -/
theorem negG_step (n : ℕ) (hn : x.head * 64 + 64 ≤ n) :
    (laneLogic env).Triple x.inputs
      [.vector (.mulsNegOne ⟨x.negGBuf, 0⟩ ⟨.gate .current, 0⟩ n)] (x.negG :: x.inputs) := by
  apply instr_triple
  · intro m hm
    have hg : x.gateFact.Holds m := hm x.gateFact (by simp [inputs])
    exact VectorInstr.mulsNegOne_holds (d := x.head * 64) hg (by simp) (by simp) hn
  · simp
  · cases hp : x.paired <;> simp [inputs, gateFact, betaFact, kktFact, negGBuf, hp]

/-- The first `Brcb`. -/
theorem gateRows_step (off off' d repeats : ℕ) (hoff : x.head * 512 = off + d * 8)
    (hoff' : x.head * 64 + x.rowStart = off' + d) (hk : d + x.rowCount ≤ repeats * 8) :
    (laneLogic env).Triple (x.negG :: x.inputs)
      [.vector (.brcb ⟨.scratch, off⟩ ⟨.gate .current, off'⟩ repeats)]
      (x.gateRows :: x.negG :: x.inputs) := by
  apply instr_triple
  · intro m hm
    have hg : x.gateFact.Holds m := hm x.gateFact (by simp [inputs])
    exact VectorInstr.brcb_holds (f := fun i => x.g (x.rowStart + i)) (hg.part rfl x.rows_le)
      hoff hoff' hk
  · simp
  · cases hp : x.paired <;> simp [inputs, gateFact, betaFact, kktFact, negG, negGBuf, hp]

/-- `Compare` -/
theorem mask_step :
    (laneLogic env).Triple (x.gateRows :: x.negG :: x.inputs)
      [.vector (.compareLT ⟨x.maskBuf, x.head * 4096⟩ ⟨.scratch, x.head * 512⟩
        ⟨.gate .current, x.head * 64⟩ x.rowCount)]
      (x.maskFact :: x.negG :: x.inputs) := by
  apply instr_triple
  · intro m hm
    have hrows : x.gateRows.Holds m := hm x.gateRows (by simp)
    have hg : x.gateFact.Holds m := hm x.gateFact (by simp [inputs])
    exact VectorInstr.compareLT_holds (p := fun i => x.g (x.rowStart + i)) hrows hg
  · simp
  · simp [inputs, gateFact, betaFact, kktFact, negG]

/-- What the rest of the factor stage starts from. -/
def work (x : HeadTile F) (exp : F → F) : List (Fact F) := x.columns exp :: x.maskFact :: x.inputs

/-- `Exp` of the negated gate. -/
theorem columns_step :
    (laneLogic env).Triple (x.maskFact :: x.negG :: x.inputs)
      [.vector (.exp ⟨x.negGBuf, x.head * 64⟩ ⟨x.negGBuf, x.head * 64⟩ x.chunkLen)]
      (x.work env.exp) := by
  apply instr_triple
  · intro m hm
    have hneg : x.negG.Holds m := hm x.negG (by simp)
    exact VectorInstr.exp_prefix_holds hneg
  · simp
  · cases hp : x.paired <;> simp [inputs, gateFact, betaFact, kktFact, maskFact, negGBuf, hp]

/-- `Exp` of the rows' gate. -/
theorem expRows_step :
    (laneLogic env).Triple (x.work env.exp)
      [.vector (.exp ⟨.output, x.out⟩ ⟨.gate .current, x.head * 64 + x.rowStart⟩ x.rowCount)]
      (x.expRows env.exp :: x.work env.exp) := by
  apply instr_triple
  · intro m hm
    have hg : x.gateFact.Holds m := hm x.gateFact (by simp [work, inputs])
    exact VectorInstr.exp_holds (hg.part rfl x.rows_le)
  · simp
  · cases hp : x.paired <;>
      simp [work, inputs, gateFact, betaFact, kktFact, maskFact, columns, negGBuf, hp]

/-- `Cast` of the rows' beta. -/
theorem betaCast_step (off off' d n : ℕ) (hoff : x.head * 64 = off + d)
    (hoff' : x.head * 64 + x.rowStart = off' + d) (hk : d + x.rowCount ≤ n) :
    (laneLogic env).Triple (x.work env.exp)
      [.vector (.cast ⟨.scratch, off⟩ ⟨.beta .current, off'⟩ n)]
      (x.betaCast :: x.work env.exp) := by
  apply instr_triple
  · intro m hm
    have hb : x.betaFact.Holds m := hm x.betaFact (by simp [work, inputs])
    exact VectorInstr.cast_holds (hb.part rfl x.rows_le) hoff hoff' hk
  · simp
  · cases hp : x.paired <;>
      simp [work, inputs, gateFact, betaFact, kktFact, maskFact, columns, negGBuf, hp]

/-- `Mul` of the two row factors. -/
theorem rowFactors_step :
    (laneLogic env).Triple (x.expRows env.exp :: x.betaCast :: x.work env.exp)
      [.vector (.mul ⟨.output, x.out⟩ ⟨.output, x.out⟩ ⟨.scratch, x.head * 64⟩ x.rowCount)]
      (x.rowFactors env.exp :: x.work env.exp) := by
  apply instr_triple
  · intro m hm
    have hexp : (x.expRows env.exp).Holds m := hm (x.expRows env.exp) (by simp)
    have hbeta : x.betaCast.Holds m := hm x.betaCast (by simp)
    exact VectorInstr.mul_holds hexp hbeta
  · simp
  · cases hp : x.paired <;>
      simp [work, inputs, gateFact, betaFact, kktFact, maskFact, columns, negGBuf, hp]

/-- The second `Brcb`. -/
theorem spreadFactors_step (repeats : ℕ) (hk : x.rowCount ≤ repeats * 8) :
    (laneLogic env).Triple (x.rowFactors env.exp :: x.work env.exp)
      [.vector (.brcb ⟨.scratch, x.head * 512⟩ ⟨.output, x.out⟩ repeats)]
      (x.spreadFactors env.exp :: x.work env.exp) := by
  apply instr_triple
  · intro m hm
    have hrow : (x.rowFactors env.exp).Holds m := hm (x.rowFactors env.exp) (by simp)
    exact VectorInstr.brcb_holds (d := 0) hrow (by simp) (by simp) (by omega)
  · simp
  · cases hp : x.paired <;>
      simp [work, inputs, gateFact, betaFact, kktFact, maskFact, columns, negGBuf, hp]

/-- The row-wise `Mul`. -/
theorem product_step :
    (laneLogic env).Triple (x.spreadFactors env.exp :: x.work env.exp)
      [.vector (.mulRows ⟨.output, x.out⟩ ⟨x.negGBuf, x.head * 64⟩ ⟨.scratch, x.head * 512⟩
        x.rowCount)]
      (x.product env.exp :: x.maskFact :: x.inputs) := by
  apply instr_triple
  · intro m hm
    have hcol : (x.columns env.exp).Holds m := hm (x.columns env.exp) (by simp [work])
    have hrow : (x.spreadFactors env.exp).Holds m := hm (x.spreadFactors env.exp) (by simp)
    exact VectorInstr.mulRows_holds hcol hrow
  · simp [work]
  · simp [inputs, gateFact, betaFact, kktFact, maskFact]

/-- `Select` -/
theorem factor_step :
    (laneLogic env).Triple (x.product env.exp :: x.maskFact :: x.inputs)
      [.vector (.select ⟨.output, x.out⟩ ⟨x.maskBuf, x.head * 4096⟩ ⟨.output, x.out⟩
        (x.rowCount * 64))]
      (x.factorFact env.exp :: x.inputs) := by
  apply instr_triple
  · intro m hm
    have hmask : x.maskFact.Holds m := hm x.maskFact (by simp)
    have hprod : (x.product env.exp).Holds m := hm (x.product env.exp) (by simp)
    exact VectorInstr.select_holds hmask hprod
  · simp
  · simp [inputs, gateFact, betaFact, kktFact]

/-- The final `Mul` by the KKT tile. -/
theorem result_step :
    (laneLogic env).Triple (x.factorFact env.exp :: x.inputs)
      [.vector (.mul ⟨.output, x.out⟩ ⟨.kkt, 0⟩ ⟨.output, x.out⟩ (x.rowCount * 64))]
      (x.resultFact env.exp :: x.inputs) := by
  apply instr_triple
  · intro m hm
    have hkkt : x.kktFact.Holds m := hm x.kktFact (by simp [inputs])
    have hfac : (x.factorFact env.exp).Holds m := hm (x.factorFact env.exp) (by simp)
    exact VectorInstr.mul_holds hkkt hfac
  · simp
  · simp [inputs, gateFact, betaFact, kktFact]

end

/-! ## The factor of a single head -/

section

variable [CommRing F] [LinearOrder F] {x : HeadTile F} {env : LaneEnv F}

theorem rowRepeats_eq {rowCount : ℕ} (h : rowCount ≤ 64) : rowRepeats rowCount = rowCount := by
  unfold rowRepeats u8
  omega

theorem rowBrcbRepeats_eq {rowCount : ℕ} (h : rowCount ≤ 64) :
    rowBrcbRepeats rowCount = (rowCount + 7) / 8 := by
  unfold rowBrcbRepeats u8
  omega

/-- **`PrepareHeadFactor`** leaves the masked factor in the output. -/
theorem prepareHeadFactor_triple (env : LaneEnv F) (hp : x.paired = false) (hh : x.head = 0) :
    (laneLogic env).Triple x.inputs
      (prepareHeadFactor x.chunkLen x.rowStart x.rowCount x.out)
      (x.factorFact env.exp :: x.inputs) := by
  have hrows := x.rows_le
  have hneg : x.negGBuf = .negGSingle := by simp [negGBuf, hp]
  have hmask : x.maskBuf = .single := by simp [maskBuf, hp]
  have h1 := x.negG_step env 64 (by omega)
  have h2 := x.gateRows_step env 0 x.rowStart 0 ((x.rowCount + 7) / 8) (by omega) (by omega)
    (by omega)
  have h3 := x.mask_step env
  have h4 := x.columns_step env
  have h5 := x.expRows_step env
  have h6 := FactLogic.Triple.carry (x.expRows env.exp)
    (x.betaCast_step env 0 x.rowStart 0 x.rowCount (by omega) (by omega) (by omega))
    (by simp [expRows])
  have h7 := x.rowFactors_step env
  have h8 := x.spreadFactors_step env ((x.rowCount + 7) / 8) (by omega)
  have h9 := x.product_step env
  have h10 := x.factor_step env
  simp only [hneg, hmask, hh, Nat.zero_mul, Nat.zero_add] at h1 h2 h3 h4 h5 h6 h7 h8 h9 h10
  rw [prepareHeadFactor, rowRepeats_eq (by omega), rowBrcbRepeats_eq (by omega)]
  have hb : ∀ Γ, (laneLogic env).KeepsAll Γ .pipeBarrierV := fun _ _ _ => trivial
  have hl : ∀ Γ, (laneLogic env).KeepsAll Γ .launchReadyOutput := fun _ _ _ => trivial
  refine .cons h1 (.cons h2 (.skip (hl _) (.skip (hb _) ?_)))
  refine .cons h3 (.cons h4 (.skip (hb _) ?_))
  refine .cons h5 (.cons h6 (.skip (hb _) ?_))
  refine .cons h7 (.skip (hb _) (.cons h8 (.skip (hb _) ?_)))
  refine .cons h9 (.skip (hb _) (.cons h10 (.skip (hb _) ?_)))
  exact .nil (List.Subset.refl _)

end

/-! ## The factors of a pair -/

section

variable [CommRing F] [LinearOrder F] {x : HeadTile F} {env : LaneEnv F} {other : ℕ}

/-- The row factors do not depend on the order of `Exp` and `Cast`. -/
theorem rowFactors_step' (x : HeadTile F) (env : LaneEnv F) :
    (laneLogic env).Triple (x.betaCast :: x.expRows env.exp :: x.work env.exp)
      [.vector (.mul ⟨.output, x.out⟩ ⟨.output, x.out⟩ ⟨.scratch, x.head * 64⟩ x.rowCount)]
      (x.rowFactors env.exp :: x.work env.exp) :=
  (x.rowFactors_step env).weaken (by simp) (List.Subset.refl _)

/-- The first broadcast of `PrepareHeadPairFactor`: one for both heads or one for each. -/
theorem pairRows_triple (env : LaneEnv F) (hp : x.paired = true) (hh : x.head = 0 ∨ x.head = 1)
    (hs : x.rowStart = 0) :
    (laneLogic env).Triple (x.negG :: x.inputs)
      (if x.rowCount = 64 then [.vector (.brcb ⟨.scratch, 0⟩ ⟨.gate .current, 0⟩ 16)]
       else [.vector (.brcb ⟨.scratch, 0⟩ ⟨.gate .current, 0⟩ ((x.rowCount + 7) / 8)),
         .vector (.brcb ⟨.scratch, 64 * 8⟩ ⟨.gate .current, 64⟩ ((x.rowCount + 7) / 8))])
      (x.gateRows :: x.negG :: x.inputs) := by
  have hrows := x.rows_le
  have hneg : x.negGBuf = .negGPair := by simp [negGBuf, hp]
  by_cases hfull : x.rowCount = 64
  · rw [if_pos hfull]
    exact x.gateRows_step env 0 0 (x.head * 64) 16 (by omega) (by omega) (by omega)
  · rw [if_neg hfull]
    cases hh with
    | inl hh =>
        refine .cons (x.gateRows_step env 0 0 0 ((x.rowCount + 7) / 8) (by omega) (by omega)
          (by omega)) (.skip ?_ (.nil (List.Subset.refl _)))
        simp [inputs, gateFact, betaFact, kktFact, gateRows, negG, hneg, hh]
        omega
    | inr hh =>
        refine .skip ?_ (x.gateRows_step env (64 * 8) 64 0 ((x.rowCount + 7) / 8) (by omega)
          (by omega) (by omega))
        simp [inputs, gateFact, betaFact, kktFact, negG, hneg]

/-- **`PrepareHeadPairFactor`** leaves the masked factor of head 0 in the first output. -/
theorem prepareHeadPairFactor_first (env : LaneEnv F) (hp : x.paired = true)
    (hh : x.head = 0) (hs : x.rowStart = 0) (hout : x.out + 4096 ≤ other ∨ other + 4096 ≤ x.out) :
    (laneLogic env).Triple x.inputs
      (prepareHeadPairFactor x.chunkLen x.rowCount x.out other)
      (x.factorFact env.exp :: x.inputs) := by
  have hrows := x.rows_le
  have hneg : x.negGBuf = .negGPair := by simp [negGBuf, hp]
  have hmask : x.maskBuf = .pair := by simp [maskBuf, hp]
  have h1 := x.negG_step env (2 * 64) (by omega)
  have h2 := pairRows_triple env hp (.inl hh) hs
  have h3 := x.mask_step env
  have h4 := x.columns_step env
  have h5 := x.betaCast_step env 0 0 0 (2 * 64) (by omega) (by omega) (by omega)
  have h6 := FactLogic.Triple.carry x.betaCast (x.expRows_step env) (by simp [betaCast])
  have h7 := rowFactors_step' x env
  have h8 := x.spreadFactors_step env ((x.rowCount + 7) / 8) (by omega)
  have h9 := x.product_step env
  have h10 := x.factor_step env
  simp only [hneg, hmask, hh, hs, Nat.zero_mul, Nat.zero_add] at h1 h3 h4 h6 h7 h8 h9 h10
  rw [prepareHeadPairFactor, rowRepeats_eq (by omega), rowBrcbRepeats_eq (by omega)]
  have hb : ∀ Γ, (laneLogic env).KeepsAll Γ .pipeBarrierV := fun _ _ _ => trivial
  have hl : ∀ Γ, (laneLogic env).KeepsAll Γ .launchReadyOutput := fun _ _ _ => trivial
  refine .append (.append h1 h2) (.skip (hb _) ?_)
  refine .cons h3 (.skip ?_ (.cons h4 (.skip ?_ (.skip (hl _) (.skip (hb _) ?_)))))
  · simp [inputs, gateFact, betaFact, kktFact, maskFact, negG, hmask, hh]
    omega
  · simp [work, inputs, gateFact, betaFact, kktFact, maskFact, columns, hneg, hh]
  refine .cons h5 (.cons h6 (.skip ?_ (.skip (hb _) ?_)))
  · simp [work, inputs, gateFact, betaFact, kktFact, maskFact, columns, betaCast, expRows, hneg]
    omega
  refine .cons h7 (.skip ?_ (.skip (hb _) (.cons h8 (.skip ?_ (.skip (hb _) ?_)))))
  · simp [work, inputs, gateFact, betaFact, kktFact, maskFact, columns, rowFactors, hneg]
    omega
  · simp [work, inputs, gateFact, betaFact, kktFact, maskFact, columns, spreadFactors, hneg, hh]
    omega
  refine .cons h9 (.skip ?_ (.skip (hb _) (.cons h10 (.skip ?_ (.skip (hb _) ?_)))))
  · simp [inputs, gateFact, betaFact, kktFact, maskFact, product]
    omega
  · simp [inputs, gateFact, betaFact, kktFact, factorFact]
    omega
  exact .nil (List.Subset.refl _)

/-- The same for head 1 and the second output. -/
theorem prepareHeadPairFactor_second (env : LaneEnv F) (hp : x.paired = true)
    (hh : x.head = 1) (hs : x.rowStart = 0) (hout : x.out + 4096 ≤ other ∨ other + 4096 ≤ x.out) :
    (laneLogic env).Triple x.inputs
      (prepareHeadPairFactor x.chunkLen x.rowCount other x.out)
      (x.factorFact env.exp :: x.inputs) := by
  have hrows := x.rows_le
  have hlen := x.chunkLen_le
  have hneg : x.negGBuf = .negGPair := by simp [negGBuf, hp]
  have hmask : x.maskBuf = .pair := by simp [maskBuf, hp]
  have h1 := x.negG_step env (2 * 64) (by omega)
  have h2 := pairRows_triple env hp (.inr hh) hs
  have h3 := x.mask_step env
  have h4 := x.columns_step env
  have h5 := x.betaCast_step env 0 0 64 (2 * 64) (by omega) (by omega) (by omega)
  have h6 := FactLogic.Triple.carry x.betaCast (x.expRows_step env) (by simp [betaCast])
  have h7 := rowFactors_step' x env
  have h8 := x.spreadFactors_step env ((x.rowCount + 7) / 8) (by omega)
  have h9 := x.product_step env
  have h10 := x.factor_step env
  simp only [hneg, hmask, hh, hs, Nat.one_mul, Nat.add_zero] at h1 h3 h4 h6 h7 h8 h9 h10
  rw [prepareHeadPairFactor, rowRepeats_eq (by omega), rowBrcbRepeats_eq (by omega)]
  have hb : ∀ Γ, (laneLogic env).KeepsAll Γ .pipeBarrierV := fun _ _ _ => trivial
  have hl : ∀ Γ, (laneLogic env).KeepsAll Γ .launchReadyOutput := fun _ _ _ => trivial
  refine .append (.append h1 h2) (.skip (hb _) ?_)
  refine .skip ?_ (.cons h3 (.skip ?_ (.cons h4 (.skip (hl _) (.skip (hb _) ?_)))))
  · simp [inputs, gateFact, betaFact, kktFact, gateRows, negG]
  · simp [inputs, gateFact, betaFact, kktFact, maskFact, negG, hneg, hh]
    omega
  refine .cons h5 (.skip ?_ (.cons h6 (.skip (hb _) ?_)))
  · simp [work, inputs, gateFact, betaFact, kktFact, maskFact, columns, betaCast, hneg]
  refine .skip ?_ (.cons h7 (.skip (hb _) (.skip ?_ (.cons h8 (.skip (hb _) ?_)))))
  · simp [work, inputs, gateFact, betaFact, kktFact, maskFact, columns, betaCast, expRows, hneg]
    omega
  · simp [work, inputs, gateFact, betaFact, kktFact, maskFact, columns, rowFactors, hneg]
  refine .skip ?_ (.cons h9 (.skip (hb _) (.skip ?_ (.cons h10 (.skip (hb _) ?_)))))
  · simp [work, inputs, gateFact, betaFact, kktFact, maskFact, columns, spreadFactors, hneg]
  · simp [inputs, gateFact, betaFact, kktFact, maskFact, product]
    omega
  exact .nil (List.Subset.refl _)

/-- The final multiply of the other head leaves this head's output and inputs alone. -/
theorem otherResult_keeps (hout : x.out + 4096 ≤ other ∨ other + 4096 ≤ x.out) (val : ℕ → F) :
    (laneLogic env).KeepsAll (.tensor ⟨.output, x.out⟩ (x.rowCount * 64) val :: x.inputs)
      (.vector (.mul ⟨.output, other⟩ ⟨.kkt, 0⟩ ⟨.output, other⟩ (x.rowCount * 64))) := by
  have hrows := x.rows_le
  simp [inputs, gateFact, betaFact, kktFact]
  omega

end

end HeadTile

end ChunkScaledDotKkt
