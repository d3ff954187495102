import ChunkScaledDotKkt.Lib.FactLogic
import ChunkScaledDotKkt.Vector.Memory

/-!
# What the regions of a lane's tensors hold

A fact about a lane's memory names a region of one tensor and the values in it.  An
instruction keeps the facts about regions apart from the one it writes, and each
instruction has one lemma for what it leaves in an element it writes.
-/

namespace ChunkScaledDotKkt

open MachineInt Buffer VectorUnit

/-- A region of a tensor or of a mask and the values it holds. -/
inductive Fact (F : Type)
  | tensor (ref : UbRef) (n : ℕ) (val : ℕ → F)
  | mask (ref : MaskRef) (n : ℕ) (val : ℕ → Bool)

namespace Fact

variable {F : Type}

def Holds (m : LaneMemory F) : Fact F → Prop
  | .tensor ref n val => ∀ a < n, m.f32 ref.buf (ref.off + a) = val a
  | .mask ref n val => ∀ a < n, m.mask ref.buf (ref.off + a) = val a

variable {m : LaneMemory F} {ref : UbRef} {n k d : ℕ} {f : ℕ → F}

/-- A part of a region. -/
theorem Holds.part {off : ℕ} (h : (tensor ref n f).Holds m) (hoff : off = ref.off + d)
    (hk : d + k ≤ n) : (tensor ⟨ref.buf, off⟩ k fun i => f (d + i)).Holds m := by
  intro i hi
  have hd := h (d + i) (by omega)
  simp only
  rw [← hd, hoff, Nat.add_assoc]

/-- The values may be renamed inside the region. -/
theorem Holds.congr {f' : ℕ → F} (h : (tensor ref n f).Holds m) (hf : ∀ a < n, f a = f' a) :
    (tensor ref n f').Holds m := by
  intro a ha
  rw [h a ha, hf a ha]

end Fact

/-- Regions of `n` and `n'` elements that share none. -/
@[simp] def UbRef.Apart (ref : UbRef) (n : ℕ) (ref' : UbRef) (n' : ℕ) : Prop :=
  ref.buf ≠ ref'.buf ∨ ref.off + n ≤ ref'.off ∨ ref'.off + n' ≤ ref.off

@[simp] def MaskRef.Apart (ref : MaskRef) (n : ℕ) (ref' : MaskRef) (n' : ℕ) : Prop :=
  ref.buf ≠ ref'.buf ∨ ref.off + n ≤ ref'.off ∨ ref'.off + n' ≤ ref.off

/-! ## Writes -/

namespace LaneMemory

variable {F : Type} {m : LaneMemory F}

theorem write_f32 {ref : UbRef} {f : (ℕ → F) → ℕ → F} {b : UbBuf} {a : ℕ} :
    (m.write ref f).f32 b a =
      if b = ref.buf then into ref.off f (m.f32 ref.buf) a else m.f32 b a := by
  by_cases h : b = ref.buf
  · subst h
    simp [write]
  · simp [write, h]

theorem writeMask_mask {ref : MaskRef} {f : (ℕ → Bool) → ℕ → Bool} {b : MaskBuf} {a : ℕ} :
    (m.writeMask ref f).mask b a =
      if b = ref.buf then into ref.off f (m.mask ref.buf) a else m.mask b a := by
  by_cases h : b = ref.buf
  · subst h
    simp [writeMask]
  · simp [writeMask, h]

/-- An element of the written tensor. -/
theorem write_f32_add {ref : UbRef} {f : (ℕ → F) → ℕ → F} {i : ℕ} :
    (m.write ref f).f32 ref.buf (ref.off + i) = f (m.read ref) i := by
  simp [write_f32, read]

theorem writeMask_mask_add {ref : MaskRef} {f : (ℕ → Bool) → ℕ → Bool} {i : ℕ} :
    (m.writeMask ref f).mask ref.buf (ref.off + i) = f (m.readMask ref) i := by
  simp [writeMask_mask, readMask]

theorem write_f32_apart {ref ref' : UbRef} {n n' i : ℕ} {f : (ℕ → F) → ℕ → F}
    (hf : ∀ dst a, n ≤ a → f dst a = dst a) (h : ref.Apart n ref' n') (hi : i < n') :
    (m.write ref f).f32 ref'.buf (ref'.off + i) = m.f32 ref'.buf (ref'.off + i) := by
  rw [write_f32]
  by_cases hb : ref'.buf = ref.buf
  · rw [if_pos hb, hb]
    rcases h with h | h | h
    · exact absurd hb.symm h
    · rw [into_of_le (by omega), hf _ _ (by omega), slice]
      congr 1
      omega
    · exact into_lt (by omega)
  · rw [if_neg hb]

theorem writeMask_mask_apart {ref ref' : MaskRef} {n n' i : ℕ} {f : (ℕ → Bool) → ℕ → Bool}
    (hf : ∀ dst a, n ≤ a → f dst a = dst a) (h : ref.Apart n ref' n') (hi : i < n') :
    (m.writeMask ref f).mask ref'.buf (ref'.off + i) = m.mask ref'.buf (ref'.off + i) := by
  rw [writeMask_mask]
  by_cases hb : ref'.buf = ref.buf
  · rw [if_pos hb, hb]
    rcases h with h | h | h
    · exact absurd hb.symm h
    · rw [into_of_le (by omega), hf _ _ (by omega), slice]
      congr 1
      omega
    · exact into_lt (by omega)
  · rw [if_neg hb]

end LaneMemory

/-! ## What a command keeps -/

/-- The region an instruction writes. -/
@[simp] def VectorInstr.target : VectorInstr → (UbRef × ℕ) ⊕ (MaskRef × ℕ)
  | .duplicateZero dst n | .mulsNegOne dst _ n | .exp dst _ n | .cast dst _ n | .mul dst _ _ n
  | .select dst _ _ n => .inl (dst, n)
  | .brcb dst _ repeats | .mulRows dst _ _ repeats => .inl (dst, repeats * 64)
  | .compareLT dst _ _ repeats => .inr (dst, repeats * 64)

variable {F : Type}

@[simp] def VectorInstr.Keeps (instr : VectorInstr) (fact : Fact F) : Prop :=
  match instr.target, fact with
  | .inl (dst, n), .tensor ref n' _ => dst.Apart n ref n'
  | .inr (dst, n), .mask ref n' _ => dst.Apart n ref n'
  | _, _ => True

/-- The command writes no element of the fact's region. -/
@[simp] def LaneOp.Keeps (op : LaneOp) (fact : Fact F) : Prop :=
  match op, fact with
  | .queue id .enQue, .tensor ref _ _ => ref.buf ≠ id.buf .queued
  | .queue id .deQue, .tensor ref _ _ => ref.buf ≠ id.buf .current
  | .copyGateOrBeta id _ _ _ _, .tensor ref _ _ => ref.buf ≠ id.buf .fresh
  | .copyKkt _ _ _ _ _, .tensor ref _ _ => ref.buf ≠ .kkt
  | .vector instr, fact => instr.Keeps fact
  | _, _ => True

section

variable [CommRing F] [LinearOrder F]

/-- An instruction writes inside its target. -/
theorem VectorInstr.keeps_sound {instr : VectorInstr} {exp : F → F} {fact : Fact F}
    {m : LaneMemory F} (hk : instr.Keeps fact) (h : fact.Holds m) :
    fact.Holds (instr.act exp m) := by
  cases fact with
  | tensor ref n' val =>
      intro a ha
      rw [← h a ha]
      cases instr with
      | compareLT dst src0 src1 repeats => rfl
      | brcb dst src repeats =>
          exact LaneMemory.write_f32_apart (fun _ _ hle => brcb_beyond hle) hk ha
      | mulRows dst src0 src1 repeats =>
          exact LaneMemory.write_f32_apart (fun _ _ hle => mulRepeat_beyond hle) hk ha
      | duplicateZero dst n | mulsNegOne dst src n | exp dst src n | cast dst src n
      | mul dst src0 src1 n | select dst mask src n =>
          refine LaneMemory.write_f32_apart (n := n) ?_ hk ha
          intro buf i hi
          simp [hi]
  | mask ref n' val =>
      intro a ha
      rw [← h a ha]
      cases instr with
      | compareLT dst src0 src1 repeats =>
          exact LaneMemory.writeMask_mask_apart (fun _ _ hle => compareLT_beyond hle) hk ha
      | _ => rfl

theorem LaneOp.keeps_sound {op : LaneOp} {env : LaneEnv F} {fact : Fact F} {m : LaneMemory F}
    (hk : op.Keeps fact) (h : fact.Holds m) : fact.Holds (op.act env m) := by
  cases op with
  | vector instr => exact VectorInstr.keeps_sound hk h
  | queue id qop =>
      cases fact with
      | mask ref n val => cases qop <;> exact h
      | tensor ref n val =>
          cases qop with
          | enQue | deQue =>
              intro a ha
              rw [← h a ha]
              exact congrFun (Function.update_of_ne hk _ _) _
          | allocTensor | freeTensor => exact h
  | copyGateOrBeta id firstHeadId start chunkLen batchHeads =>
      cases fact with
      | mask ref n val => exact h
      | tensor ref n val =>
          intro a ha
          rw [← h a ha]
          exact congrFun (Function.update_of_ne hk _ _) _
  | copyKkt groupId slotId chunkLen rowStart rowCount =>
      cases fact with
      | mask ref n val => exact h
      | tensor ref n val =>
          intro a ha
          rw [← h a ha]
          exact congrFun (Function.update_of_ne hk _ _) _
  | _ => exact h

/-- The logic of a lane's commands. -/
def laneLogic (env : LaneEnv F) : FactLogic (LaneMemory F) LaneOp (Fact F) where
  act op m := op.act env m
  Holds fact m := fact.Holds m
  Keeps op fact := op.Keeps fact
  sound := LaneOp.keeps_sound

@[simp] theorem laneLogic_keeps (env : LaneEnv F) (op : LaneOp) (fact : Fact F) :
    (laneLogic env).Keeps op fact = op.Keeps fact := rfl

@[simp] theorem run_laneLogic (env : LaneEnv F) (ops : List LaneOp) (m : LaneMemory F) :
    (laneLogic env).run ops m = runLane env ops m := rfl

/-- An instruction adds the fact it establishes to those it keeps. -/
theorem instr_triple {env : LaneEnv F} {Γ Δ : List (Fact F)} {instr : VectorInstr} {fact : Fact F}
    (heff : ∀ m, (laneLogic env).Sat Γ m → fact.Holds (instr.act env.exp m)) (hsub : Δ ⊆ Γ)
    (hkeep : (laneLogic env).KeepsAll Δ (.vector instr)) :
    (laneLogic env).Triple Γ [.vector instr] (fact :: Δ) :=
  FactLogic.Triple.step heff hsub hkeep

/-! ## What an instruction establishes

Counted instructions and the broadcast are stated for the part of their operands
that starts `d` elements in. -/

namespace VectorInstr

variable {exp : F → F} {m : LaneMemory F} {dst src src0 src1 : UbRef} {off off' n k d repeats : ℕ}
  {f p q : ℕ → F}

theorem duplicateZero_holds (hoff : off = dst.off + d) (hk : d + k ≤ n) :
    (Fact.tensor ⟨dst.buf, off⟩ k fun _ => (0 : F)).Holds ((duplicateZero dst n).act exp m) := by
  intro i hi
  have hlt : d + i < n := by omega
  simp [act, hoff, Nat.add_assoc, LaneMemory.write_f32_add, hlt]

theorem mulsNegOne_holds (h : (Fact.tensor ⟨src.buf, off'⟩ k f).Holds m)
    (hoff : off = dst.off + d) (hoff' : off' = src.off + d) (hk : d + k ≤ n) :
    (Fact.tensor ⟨dst.buf, off⟩ k fun i => -f i).Holds ((mulsNegOne dst src n).act exp m) := by
  intro i hi
  have hlt : d + i < n := by omega
  simp only
  rw [← h i hi]
  simp [act, hoff, hoff', Nat.add_assoc, LaneMemory.write_f32_add, hlt, LaneMemory.read, slice]

theorem cast_holds (h : (Fact.tensor ⟨src.buf, off'⟩ k f).Holds m)
    (hoff : off = dst.off + d) (hoff' : off' = src.off + d) (hk : d + k ≤ n) :
    (Fact.tensor ⟨dst.buf, off⟩ k f).Holds ((VectorInstr.cast dst src n).act exp m) := by
  intro i hi
  have hlt : d + i < n := by omega
  simp only
  rw [← h i hi]
  simp [act, hoff, hoff', Nat.add_assoc, LaneMemory.write_f32_add, hlt, LaneMemory.read, slice]

/-- A block of 8 copies for each element. -/
theorem brcb_holds (h : (Fact.tensor ⟨src.buf, off'⟩ k f).Holds m)
    (hoff : off = dst.off + d * 8) (hoff' : off' = src.off + d) (hk : d + k ≤ repeats * 8) :
    (Fact.tensor ⟨dst.buf, off⟩ (k * 8) fun a => f (a / 8)).Holds
      ((brcb dst src repeats).act exp m) := by
  intro a ha
  have ha' : off + a = dst.off + ((d + a / 8) * 8 + a % 8) := by omega
  have hlt : d + a / 8 < repeats * 8 := by omega
  simp only
  rw [← h (a / 8) (by omega)]
  rw [ha', act, LaneMemory.write_f32_add, brcb_apply (by omega), if_pos hlt, hoff', Nat.add_assoc]
  rfl

theorem exp_holds (h : (Fact.tensor src n f).Holds m) :
    (Fact.tensor dst n fun i => exp (f i)).Holds ((VectorInstr.exp dst src n).act exp m) := by
  intro i hi
  simp only
  rw [← h i hi]
  simp [act, LaneMemory.write_f32_add, hi, LaneMemory.read, slice]

/-- The exponential of a prefix, in place. -/
theorem exp_prefix_holds (h : (Fact.tensor dst k f).Holds m) :
    (Fact.tensor dst k fun i => if i < n then exp (f i) else f i).Holds
      ((VectorInstr.exp dst dst n).act exp m) := by
  intro i hi
  simp only
  rw [← h i hi]
  simp [act, LaneMemory.write_f32_add, LaneMemory.read, slice]

theorem mul_holds (h0 : (Fact.tensor src0 n p).Holds m) (h1 : (Fact.tensor src1 n q).Holds m) :
    (Fact.tensor dst n fun i => p i * q i).Holds
      ((VectorInstr.mul dst src0 src1 n).act exp m) := by
  intro i hi
  simp only
  rw [← h0 i hi, ← h1 i hi]
  simp [act, LaneMemory.write_f32_add, hi, LaneMemory.read, slice]

/-- Each row's element against every column. -/
theorem compareLT_holds {mask : MaskRef}
    (h0 : (Fact.tensor src0 (repeats * 8) fun a => p (a / 8)).Holds m)
    (h1 : (Fact.tensor src1 64 q).Holds m) :
    (Fact.mask (F := F) mask (repeats * 64) fun a => decide (p (a / 64) < q (a % 64))).Holds
      ((compareLT mask src0 src1 repeats).act exp m) := by
  intro a ha
  have ha' : a = a / 64 * 64 + a % 64 := by omega
  have hrow := h0 (a / 64 * 8 + a % 64 % 8) (by omega)
  have hdiv : (a / 64 * 8 + a % 64 % 8) / 8 = a / 64 := by omega
  simp only [hdiv] at hrow
  simp only
  rw [← hrow, ← h1 (a % 64) (by omega)]
  nth_rewrite 1 [ha']
  rw [act, LaneMemory.writeMask_mask_add, VectorStage.compareRows,
    compareLT_apply (by omega) (by omega)]
  rfl

/-- Every column's element with each row's. -/
theorem mulRows_holds (h0 : (Fact.tensor src0 64 p).Holds m)
    (h1 : (Fact.tensor src1 (repeats * 8) fun a => q (a / 8)).Holds m) :
    (Fact.tensor dst (repeats * 64) fun a => p (a % 64) * q (a / 64)).Holds
      ((mulRows dst src0 src1 repeats).act exp m) := by
  intro a ha
  have ha' : a = a / 64 * 64 + a % 64 := by omega
  have hrow := h1 (a / 64 * 8 + a % 64 % 8) (by omega)
  have hdiv : (a / 64 * 8 + a % 64 % 8) / 8 = a / 64 := by omega
  simp only [hdiv] at hrow
  simp only
  rw [← hrow, ← h0 (a % 64) (by omega)]
  nth_rewrite 1 [ha']
  rw [act, LaneMemory.write_f32_add, mulRepeat_apply (by omega) (by omega)]
  rfl

theorem select_holds {mask : MaskRef} {v : ℕ → Bool} (hm : (Fact.mask mask n v).Holds m)
    (h : (Fact.tensor src n f).Holds m) :
    (Fact.tensor dst n fun i => if v i then f i else 0).Holds
      ((VectorInstr.select dst mask src n).act exp m) := by
  intro i hi
  simp only
  rw [← h i hi, ← hm i hi, act, LaneMemory.write_f32_add, select_apply, if_pos hi]
  rfl

end VectorInstr

end

end ChunkScaledDotKkt
