import ChunkScaledDotKkt.System

/-!
# Commands of a group on its buffers

The effect of every command on the AIC's buffers and the workspace, what each command
relies on, and that commands without a hazard between them may be exchanged.  With
`hazard_covered` this makes the pipes and fences of a group a discipline in the sense of
`TokenNet`.

## Main results

* `commute_of_not_hazard`, `good_iff_of_not_hazard`.
* `discipline`
-/

namespace ChunkScaledDotKkt

open Buffer CubeUnit PackedGramMmadCubeStage TokenNet

/-- A group's AIC with the task of every round. -/
structure SystemEnv (R : Type) where
  cube : CubeEnv R
  tasks : ℕ → AicTask

variable {R : Type} [Semiring R]

/-- The tile that the AIC packs in a round. -/
def SystemEnv.tile (env : SystemEnv R) (r : ℕ) : ℕ → ℕ → R := env.cube.tile (env.tasks r)

/-- The slot holds the Gram matrix of a task's tile, row-major with row stride 64. -/
def CubeEnv.HoldsGram (env : CubeEnv R) (task : AicTask) (slotId : ℕ) (m : AicMemory R) : Prop :=
  ∀ i < 64, ∀ j < 64, m.workspace (slotOffset env.groupId slotId + (i * 64 + j)) =
    gram (env.tile task) env.mode.kDim i j

/-- The slot holds the Gram matrix of a round's tile. -/
def SystemEnv.HoldsGram (env : SystemEnv R) (r slotId : ℕ) : AicMemory R → Prop :=
  env.cube.HoldsGram (env.tasks r) slotId

namespace Command

/-- The effect of a command; the lanes only read the workspace. -/
def act (env : SystemEnv R) (k : Command) (m : AicMemory R) : AicMemory R :=
  match k with
  | .aic r op => op.act env.cube (env.tasks r) m
  | .aiv _ _ _ => m

/-- What a command relies on: the AIC's commands on the data of their own task, a lane's
copy on the tile that the AIC committed for the lane's round. -/
def good (gated : Bool) (env : SystemEnv R) (k : Command) (m : AicMemory R) : Prop :=
  match k with
  | .aic r op => op.good env.cube.mode (env.tile r) m
  | .aiv _ r (.copyKkt groupId slotId _ _ _) =>
      gated = true → groupId = env.cube.groupId ∧ env.HoldsGram r slotId m
  | .aiv _ _ _ => True

/-! ## Commands without a hazard -/

/-- The pipes on which buffers are touched are in order. -/
theorem pipe_ne {gated : Bool} {r r' : ℕ} {op op' : AicOp}
    (h : ¬ (net gated).Holds (.aic r op) (.aic r' op')) : op.pipe ≠ op'.pipe :=
  fun hp => h ⟨rfl, before_of_pipe hp⟩

/-- Commands that run in different pipes and share no place commute. -/
theorem act_comm_aic {gated : Bool} {env : CubeEnv R} {t t' : AicTask} {r r' : ℕ}
    {op op' : AicOp} (hp : op.pipe ≠ op'.pipe)
    (h : ¬ (aic r op).Hazard gated (aic r' op')) (m : AicMemory R) :
    op.act env t (op'.act env t' m) = op'.act env t' (op.act env t m) := by
  have inert : ∀ {x : AicOp} (t : AicTask), x.acts = false → ∀ m : AicMemory R, x.act env t m = m :=
    fun t hx m => (AicOp.good_of_not_acts env t (fun _ _ => 0) _ hx m).2
  by_cases ha : op.acts = true
  · by_cases ha' : op'.acts = true
    · simp only [Hazard, reads, writes, not_not] at h
      cases op <;> cases ha <;> cases op' <;> cases ha' <;>
        first
          | exact absurd rfl hp
          | (simp [AicOp.reads, AicOp.writes] at h; done)
          -- a load and the product of another stage
          | (simp [AicOp.reads, AicOp.writes] at h
             repeat rw [AicOp.act]
             simp only [Function.update_of_ne (Ne.symm h)])
          -- different buffers
          | repeat rw [AicOp.act]
    · rw [inert t' (by simpa using ha'), inert t' (by simpa using ha')]
  · rw [inert t (by simpa using ha), inert t (by simpa using ha)]

/-- The place has the same contents in both memories. -/
def Agree (env : CubeEnv R) (m m' : AicMemory R) : Place → Prop
  | .l1 => m.l1 = m'.l1
  | .l0a stage => m.l0a stage = m'.l0a stage
  | .l0b stage => m.l0b stage = m'.l0b stage
  | .l0c => m.l0c = m'.l0c
  | .slot slotId => ∀ i < 4096, m.workspace (slotOffset env.groupId slotId + i) =
      m'.workspace (slotOffset env.groupId slotId + i)

/-- A commit leaves the other slots as they are. -/
theorem commit_other (env : CubeEnv R) (t : AicTask) {slotId slotId' : ℕ} (h : slotId' ≠ slotId)
    (m : AicMemory R) :
    Agree env ((AicOp.commitWorkspace slotId).act env t m) m (.slot slotId') := by
  intro i hi
  refine into_outside (fun _ _ hi => fixpipe_outside hi) ?_
  simp only [slotOffset]
  omega

/-- A command changes only the places it writes. -/
theorem agree_act (env : CubeEnv R) (t : AicTask) {op : AicOp} {p : Place} (hp : p ∉ op.writes)
    (m : AicMemory R) : Agree env (op.act env t m) m p := by
  cases p with
  | slot slotId' =>
      cases op
      case commitWorkspace slotId =>
        exact commit_other env t (by simpa [AicOp.writes] using hp) m
      all_goals simp [Agree, AicOp.act]
  | l0a stage' =>
      cases op
      case loadKPartToL0A stage kPart =>
        rw [AicOp.act]
        exact Function.update_of_ne (by simpa [AicOp.writes] using hp) _ _
      all_goals simp only [Agree, AicOp.act]
  | l0b stage' =>
      cases op
      case loadKPartToL0B stage kPart block =>
        rw [AicOp.act]
        exact Function.update_of_ne (by simpa [AicOp.writes] using hp) _ _
      all_goals simp only [Agree, AicOp.act]
  | l1 =>
      cases op
      case clearSharedL1 => simp [AicOp.writes] at hp
      case copyOnePackedOperand => simp [AicOp.writes] at hp
      all_goals simp only [Agree, AicOp.act]
  | l0c =>
      cases op
      case mmad => simp [AicOp.writes] at hp
      all_goals simp only [Agree, AicOp.act]

/-- What a command relies on is a matter of the places it reads. -/
theorem good_congr_aic {env : CubeEnv R} {X : ℕ → ℕ → R} {op : AicOp} {m m' : AicMemory R}
    (h : ∀ p ∈ op.reads, Agree env m m' p) : op.good env.mode X m ↔ op.good env.mode X m' := by
  cases op
  case loadKPartToL0A stage kPart =>
    have h1 : m.l1 = m'.l1 := h .l1 (by simp [AicOp.reads])
    simp only [AicOp.good, h1]
  case loadKPartToL0B stage kPart block =>
    have h1 : m.l1 = m'.l1 := h .l1 (by simp [AicOp.reads])
    simp only [AicOp.good, h1]
  case mmad stage kPart initializeC =>
    have ha : m.l0a stage = m'.l0a stage := h (.l0a stage) (by simp [AicOp.reads])
    have hb : m.l0b stage = m'.l0b stage := h (.l0b stage) (by simp [AicOp.reads])
    have hc : m.l0c = m'.l0c := h .l0c (by simp [AicOp.reads])
    simp only [AicOp.good, ha, hb, hc]
  case commitWorkspace slotId =>
    have hc : m.l0c = m'.l0c := h .l0c (by simp [AicOp.reads])
    simp only [AicOp.good, hc]
  all_goals exact Iff.rfl

theorem good_congr {gated : Bool} {env : SystemEnv R} {k : Command} {m m' : AicMemory R}
    (h : ∀ p ∈ k.reads gated, Agree env.cube m m' p) :
    k.good gated env m ↔ k.good gated env m' := by
  cases k with
  | aic r op => exact good_congr_aic h
  | aiv lane r op =>
      cases op
      case copyKkt groupId slotId chunkLen rowStart rowCount =>
        refine imp_congr_right ?_
        intro hgated
        have hslot := h (.slot slotId) (by simp [reads, hgated])
        have heq : ∀ i < 64, ∀ j < 64,
            m.workspace (slotOffset env.cube.groupId slotId + (i * 64 + j)) =
              m'.workspace (slotOffset env.cube.groupId slotId + (i * 64 + j)) :=
          fun i hi j hj => hslot (i * 64 + j) (by omega)
        simp only [SystemEnv.HoldsGram, CubeEnv.HoldsGram]
        refine and_congr_right fun _ => forall₄_congr ?_
        intro i hi j hj
        rw [heq i hi j hj]
      all_goals exact Iff.rfl

/-- **A command without a hazard changes nothing another one relies on.** -/
theorem good_act_iff {gated : Bool} {env : SystemEnv R} {e k : Command}
    (h : ∀ p ∈ k.reads gated, p ∉ e.writes) (m : AicMemory R) :
    k.good gated env (e.act env m) ↔ k.good gated env m := by
  cases e with
  | aic r op => exact good_congr fun p hp => agree_act env.cube (env.tasks r) (h p hp) m
  | aiv lane r op => exact Iff.rfl

/-- **Commands without a hazard commute**, unless one pipe orders them anyway. -/
theorem act_comm {gated : Bool} {env : SystemEnv R} {e k : Command}
    (hold : ¬ (net gated).Holds e k) (h : ¬ e.Hazard gated k) (m : AicMemory R) :
    e.act env (k.act env m) = k.act env (e.act env m) := by
  cases e with
  | aic r op =>
      cases k with
      | aic r' op' => exact act_comm_aic (pipe_ne hold) h m
      | aiv lane' r' op' => rfl
  | aiv lane r op => rfl

end Command

open Command in
/-- **The discipline of a group**: pipes and fences order every hazard. -/
def discipline (gated : Bool) (env : SystemEnv R) :
    Net.Discipline (net gated) (act env) (good gated env) where
  conflict e k := (net gated).Holds e k ∨ e.Hazard gated k
  fences := cubeFences gated env.cube.mode ++ slotFences gated
  covered e k h := by
    cases h with
    | inl hold => exact Or.inl hold
    | inr hazard => exact hazard_covered env.cube.mode hazard
  comm e k h m := by
    rw [not_or] at h
    exact act_comm h.1 h.2 m
  good_before e k h m := by
    rw [not_or, Hazard, not_not] at h
    refine (good_act_iff ?_ m).mp
    intro p hp hw
    exact h.2.1 hw (List.mem_append_left _ hp)
  good_after e k h m := by
    rw [not_or, Hazard, not_not] at h
    refine (good_act_iff ?_ m).mpr
    intro p hp hw
    exact h.2.2 hp hw

end ChunkScaledDotKkt
