import ChunkScaledDotKkt.Discipline

/-!
# On-chip hazards of the cube stages

The AIC alone, for any sequence of valid and invalid tasks: its pipes run out of step
with each other and with a scalar unit that FREE waits delay.  Between two tasks the
shared L1 tile and L0C each rest with one token, and no other event has one.

## Main results

* `aicOps_passes` — a task takes every event from rest to rest.
* `meets_aicOps` — the commands of a task meet their assertions in program order.
* `cube_hazard_free` — in every interleaving.
-/

namespace ChunkScaledDotKkt

open Buffer CubeUnit PackedGramMmadCubeStage TokenNet Command

/-! ## The program -/

/-- The commands of round `r` of the task loop. -/
def aicOps (mode : KMode) (tasks : ℕ → AicTask) (r : ℕ) : List AicOp :=
  taskOps mode (tasks r).validChunk (tasks r).tail (2 ≤ r) (r % 2)

def aicBlock (mode : KMode) (tasks : ℕ → AicTask) (r : ℕ) : List Command :=
  (aicOps mode tasks r).map (.aic r)

/-- `Process` of the AIC for `n` rounds. -/
def aicProgram (mode : KMode) (tasks : ℕ → AicTask) (n : ℕ) : List Command :=
  initPersistentEvents.map (.aic 0) ++ (List.range n).flatMap (aicBlock mode tasks) ++
  drainPersistentEvents.map (.aic n)

/-! ## Events -/

/-- The tokens between two tasks. -/
def resting : Flag → ℕ
  | .event .aic .mte1_mte2 .id0 => 1
  | .event .aic .fix_m .id0 => 1
  | _ => 0

/-- Whether commands of the task before may still be unfenced: the products are not, as
both stages drain their L0 tokens. -/
def restingMark : Flag → Bool
  | .event .aic .m_mte1 _ => false
  | _ => true

/-- From rest to rest, at count and mark. -/
def Rests {gated : Bool} (F : Fence (net gated)) (block : List Command) : Prop :=
  F.Passes (resting F.flag) (restingMark F.flag) block (resting F.flag) (restingMark F.flag)

instance {gated : Bool} (F : Fence (net gated)) (block : List Command) :
    Decidable (Rests F block) := inferInstanceAs (Decidable (F.Passes _ _ _ _ _))

/-- **A task takes every event from rest to rest.** -/
theorem taskOps_rests (mode : KMode) : ∀ gated valid tail reuse, ∀ slotId < 2,
    ∀ F ∈ cubeFences gated mode, Rests F ((taskOps mode valid tail reuse slotId).map (.aic 0)) := by
  cases mode
  · decide +kernel
  · decide +kernel

/-- The event that a command sets or waits for. -/
def AicOp.event? : AicOp → Option (HardEvent × EventId)
  | .setFlag event id => some (event, id)
  | .waitFlag event id => some (event, id)
  | _ => none

/-- The events of the fences. -/
def cubeFlags (mode : KMode) : List Flag := (cubeFences false mode).map Fence.flag

/-- All events of the operations are events of the fences. -/
def EventsFenced (mode : KMode) (ops : List AicOp) : Prop :=
  ∀ op ∈ ops, ∀ event ∈ op.event?, .event .aic event.1 event.2 ∈ cubeFlags mode

instance (mode : KMode) (ops : List AicOp) : Decidable (EventsFenced mode ops) :=
  inferInstanceAs (Decidable (∀ op ∈ ops, ∀ event ∈ op.event?, _))

theorem taskOps_events (mode : KMode) : ∀ valid tail reuse, ∀ slotId < 2,
    EventsFenced mode (taskOps mode valid tail reuse slotId) := by
  cases mode
  · decide +kernel
  · decide +kernel

/-! ## Assertions -/

section Assertions

variable {R : Type} [Semiring R] {env : CubeEnv R} {task : AicTask} {X : ℕ → ℕ → R}

/-- Events, cross-core flags and barriers keep any condition on the buffers. -/
theorem meets_of_not_acts (env : CubeEnv R) (task : AicTask) (X : ℕ → ℕ → R)
    (P : AicMemory R → Prop) {ops : List AicOp} (h : ∀ op ∈ ops, op.acts = false) :
    Meets (AicOp.act env task) (AicOp.good env.mode X) P ops P := by
  refine Meets.of_keeps ?_
  intro op hop m hm
  obtain ⟨hgood, hact⟩ := AicOp.good_of_not_acts env task X op (h op hop) m
  rw [hact]
  exact ⟨hgood, hm⟩

theorem meets_copy (hfit : task.Fits) :
    Meets (AicOp.act env task) (AicOp.good env.mode X) (fun _ => True)
      (copyPackedKToSharedL1 task.tail) (fun m => Packed env.mode (env.tile task) m.l1) := by
  intro m _
  refine ⟨?_, packed_l1 env hfit m⟩
  cases task.tail <;> exact ⟨trivial, trivial, trivial, by trivial⟩

theorem meets_gram :
    Meets (AicOp.act env task) (AicOp.good env.mode X) (fun m => Packed env.mode X m.l1)
      (computeGram env.mode) (fun m => HoldsC X env.mode.kParts m.l0c) := by
  intro m hm
  have hparts : env.mode.kParts ≠ 0 := by cases env.mode <;> decide
  obtain ⟨hasserts, hgram⟩ := meets_computeGram (w := m.workspace) m
    ⟨hm, fun h => absurd rfl h, rfl⟩
  exact ⟨hasserts, hgram.product hparts⟩

theorem meets_commit (slotId : ℕ) :
    Meets (AicOp.act env task) (AicOp.good env.mode (env.tile task))
      (fun m => HoldsC (env.tile task) env.mode.kParts m.l0c) [.commitWorkspace slotId]
      (env.HoldsGram task slotId) :=
  .cons (fun _ hm => ⟨hm, (commit_gram env task hm slotId).1⟩) .nil

theorem initL0Events_not_acts (mode : KMode) : ∀ op ∈ initL0Events mode, op.acts = false := by
  cases mode <;> decide

theorem drainL0Events_not_acts (mode : KMode) : ∀ op ∈ drainL0Events mode, op.acts = false := by
  cases mode <;> decide

/-- **The commands of a task in program order**: every one finds the data of its own
task, and a valid task leaves its Gram matrix in the slot. -/
theorem meets_taskOps (hfit : task.validChunk = true → task.Fits) (reuse : Bool) (slotId : ℕ) :
    Meets (AicOp.act env task) (AicOp.good env.mode (env.tile task)) (fun _ => True)
      (taskOps env.mode task.validChunk task.tail reuse slotId)
      (fun m => task.validChunk = true → env.HoldsGram task slotId m) := by
  have hinit := meets_of_not_acts env task (env.tile task) (fun _ => True)
    (initL0Events_not_acts env.mode)
  have hfree : ∀ P : AicMemory R → Prop,
      Meets (AicOp.act env task) (AicOp.good env.mode (env.tile task)) P
        (if reuse then [.waitFree slotId] else []) P := by
    intro P
    refine meets_of_not_acts env task (env.tile task) P ?_
    cases reuse <;> simp [AicOp.acts]
  have hdrain := fun P : AicMemory R → Prop =>
    meets_of_not_acts env task (env.tile task) P (drainL0Events_not_acts env.mode)
  have hend := fun (P : AicMemory R → Prop) (op : AicOp) (h : op.acts = false) =>
    meets_of_not_acts env task (env.tile task) P (List.forall_mem_singleton.mpr h)
  cases hvalid : task.validChunk with
  | true =>
      have hops : taskOps env.mode true task.tail reuse slotId = initL0Events env.mode ++
          (copyPackedKToSharedL1 task.tail ++ (computeGram env.mode ++
          ((if reuse then [.waitFree slotId] else []) ++ ([.commitWorkspace slotId] ++
          ([.setReady slotId] ++ ([.setFlag .fix_m CO1_EVENT] ++ drainL0Events env.mode)))))) := by
        simp [taskOps]
      rw [hops]
      have hmeets := hinit.append ((meets_copy (hfit hvalid)).append (meets_gram.append
        ((hfree _).append ((meets_commit slotId).append ((hend _ (.setReady slotId) rfl).append
          ((hend _ (.setFlag .fix_m CO1_EVENT) rfl).append (hdrain _)))))))
      exact hmeets.weaken (fun _ hm => hm) (fun _ hm _ => hm)
  | false =>
      have hops : taskOps env.mode false task.tail reuse slotId = initL0Events env.mode ++
          ((if reuse then [.waitFree slotId] else []) ++
          ([.setReady slotId] ++ drainL0Events env.mode)) := by
        simp [taskOps]
      rw [hops]
      have hmeets := hinit.append
        ((hfree _).append ((hend _ (.setReady slotId) rfl).append (hdrain _)))
      exact hmeets.weaken (fun _ hm => hm) (fun _ _ h => by cases h)

end Assertions

/-! ## The whole program -/

section Program

variable {gated : Bool} {mode : KMode}

theorem exists_of_mem_cubeFences {F : Fence (net gated)} (hF : F ∈ cubeFences gated mode) :
    ∃ event id earlier later, F = cubeFence gated event id earlier later := by
  rw [cubeFences, List.mem_append] at hF
  cases hF with
  | inl hF =>
      simp only [List.mem_cons, List.not_mem_nil, or_false] at hF
      rcases hF with rfl | rfl | rfl | rfl | rfl <;> exact ⟨_, _, _, _, rfl⟩
  | inr hF =>
      cases mode
      · obtain ⟨id, -, rfl⟩ := List.mem_map.mp hF
        exact ⟨_, _, _, _, rfl⟩
      · obtain ⟨stage, -, rfl⟩ := List.mem_map.mp hF
        exact ⟨_, _, _, _, rfl⟩

/-- The fences of the AIC tell operations apart, not rounds. -/
theorem passes_round {F : Fence (net gated)} (hF : F ∈ cubeFences gated mode) {c c' : ℕ}
    {p p' : Bool} {ops : List AicOp} (r : ℕ) (h : F.Passes c p (ops.map (.aic 0)) c' p') :
    F.Passes c p (ops.map (.aic r)) c' p' := by
  obtain ⟨event, id, earlier, later, rfl⟩ := exists_of_mem_cubeFences hF
  refine h.map_congr ?_
  intro op
  exact ⟨by cases op <;> rfl, by cases op <;> rfl, rfl, rfl⟩

theorem initPersistentEvents_passes : ∀ F ∈ cubeFences gated mode,
    F.Passes 0 false (initPersistentEvents.map (.aic 0)) (resting F.flag)
      (restingMark F.flag) := by
  cases gated <;> cases mode <;> decide +kernel

theorem drainPersistentEvents_passes : ∀ F ∈ cubeFences gated mode,
    F.Passes (resting F.flag) (restingMark F.flag) (drainPersistentEvents.map (.aic 0)) 0
      true := by
  cases gated <;> cases mode <;> decide +kernel

theorem aicBlock_rests (tasks : ℕ → AicTask) {F : Fence (net gated)}
    (hF : F ∈ cubeFences gated mode) (r : ℕ) : Rests F (aicBlock mode tasks r) :=
  passes_round hF r (taskOps_rests mode gated _ _ _ _ (Nat.mod_lt r (by decide)) F hF)

/-- **The program passes the fences of the AIC**, from no tokens to no tokens. -/
theorem aicProgram_passes (tasks : ℕ → AicTask) (n : ℕ) {F : Fence (net gated)}
    (hF : F ∈ cubeFences gated mode) : F.Passes 0 false (aicProgram mode tasks n) 0 true := by
  have hrounds : Rests F ((List.range n).flatMap (aicBlock mode tasks)) :=
    Fence.Passes.flatMap (c := fun _ => resting F.flag) (p := fun _ => restingMark F.flag)
      fun r _ => aicBlock_rests tasks hF r
  exact ((initPersistentEvents_passes F hF).append hrounds).append
    (passes_round hF n (drainPersistentEvents_passes F hF))

theorem aicOps_events (mode : KMode) (tasks : ℕ → AicTask) (r : ℕ) :
    EventsFenced mode (aicOps mode tasks r) :=
  taskOps_events mode _ _ _ _ (Nat.mod_lt r (by decide))

/-- A command of the AIC touches no flag but its event and, with the lanes there, the
cross-core flags. -/
theorem untouched_aic {f : Flag} (hf : ∀ flag lane, f = .cross flag lane → gated = false)
    {op : AicOp} (hop : ∀ event ∈ op.event?, f ≠ .event .aic event.1 event.2) (r : ℕ) :
    (aic r op).waits gated f = 0 ∧ (aic r op).sets gated f = 0 := by
  cases op
  case setFlag event id => exact ⟨rfl, if_neg (hop (event, id) rfl)⟩
  case waitFlag event id => exact ⟨if_neg (hop (event, id) rfl), rfl⟩
  case waitFree slotId =>
    refine ⟨if_neg ?_, rfl⟩
    rintro ⟨hgated, hflag | hflag⟩ <;> rw [hf _ _ hflag] at hgated <;> cases hgated
  case setReady slotId =>
    refine ⟨rfl, if_neg ?_⟩
    rintro ⟨hgated, hflag | hflag⟩ <;> rw [hf _ _ hflag] at hgated <;> cases hgated
  all_goals exact ⟨rfl, rfl⟩

theorem cubeFlags_eq : (cubeFences gated mode).map Fence.flag = cubeFlags mode := by
  cases gated <;> cases mode <;> rfl

/-- Operations whose events are fenced leave the other flags alone. -/
theorem EventsFenced.plain {ops : List AicOp} (h : EventsFenced mode ops) {f : Flag}
    (hf : ∀ flag lane, f = .cross flag lane → gated = false) (hmem : f ∉ cubeFlags mode)
    (r c : ℕ) : (Fence.plain (net gated) f).Passes c true (ops.map (.aic r)) c true := by
  refine Fence.Passes.of_inert ?_ c true
  intro k hk
  obtain ⟨op, hop, rfl⟩ := List.mem_map.mp hk
  obtain ⟨hw, hs⟩ := untouched_aic hf (fun event he heq => hmem (heq ▸ h op hop event he)) r
  exact ⟨hw, hs, rfl, rfl⟩

/-- **The program alone returns every token.** -/
theorem aicProgram_plain (tasks : ℕ → AicTask) (n : ℕ) (f : Flag) :
    (Fence.plain (net false) f).Passes 0 true (aicProgram mode tasks n) 0 true := by
  by_cases hmem : f ∈ cubeFlags mode
  · obtain ⟨F, hF, rfl⟩ := List.mem_map.mp hmem
    exact (aicProgram_passes tasks n hF).plain
  · have hf : ∀ flag lane, f = .cross flag lane → false = false := fun _ _ _ => rfl
    have hinit : EventsFenced mode initPersistentEvents := by cases mode <;> decide
    have hdrain : EventsFenced mode drainPersistentEvents := by cases mode <;> decide
    have hblock : ∀ r < n,
        (Fence.plain (net false) f).Passes 0 true (aicBlock mode tasks r) 0 true :=
      fun r _ => (aicOps_events mode tasks r).plain hf hmem r 0
    have hrounds := Fence.Passes.flatMap (c := fun _ => 0) (p := fun _ => true) hblock
    exact ((hinit.plain hf hmem 0 0).append hrounds).append (hdrain.plain hf hmem n 0)

end Program

/-! ## Every interleaving -/

section Interleavings

variable {R : Type} [Semiring R]

/-- The AIC at its start, with no tokens and any contents of the buffers. -/
def aicStart (env : SystemEnv R) (n : ℕ) (mem : AicMemory R) :
    State Party Command Flag (AicMemory R) where
  todo
    | .aic => aicProgram env.cube.mode env.tasks n
    | .aiv _ => []
  tokens _ := 0
  mem := mem

/-- What a command of the AIC meets when it can execute: `pre` are the commands issued
before it that are still pending. -/
structure HazardFree (env : SystemEnv R) (r : ℕ) (op : AicOp) (pre : List Command)
    (m : AicMemory R) : Prop where
  /-- L1 is not written before all loads of an earlier task have read it. -/
  l1_kept : op.isCopy = true → ∀ r' e, .aic r' e ∈ pre → e.isLoad = false
  /-- A stage of L0 is not overwritten before the MMAD that reads it. -/
  l0_kept : ∀ stage, .l0a stage ∈ op.writes ∨ .l0b stage ∈ op.writes →
    ∀ r' kPart initializeC, .aic r' (.mmad stage kPart initializeC) ∉ pre
  /-- An MMAD reads what was loaded for its K-part and its task. -/
  l0_own : ∀ stage kPart initializeC, op = .mmad stage kPart initializeC →
    HoldsA (env.tile r) kPart (m.l0a stage) ∧ HoldsB (env.tile r) kPart 4 (m.l0b stage) ∧
      (if initializeC then kPart = 0 else HoldsC (env.tile r) kPart m.l0c)
  /-- L0C is not touched before the earlier result has been copied. -/
  l0c_kept : op.isMmad = true → ∀ r' e, .aic r' e ∈ pre → e.isCommit = false
  /-- A committed tile is the Gram matrix of its own task. -/
  committed : ∀ slotId, op = .commitWorkspace slotId →
    env.HoldsGram r slotId (act env (.aic r op) m)

/-- A command that meets its assertion with no hazard before it. -/
theorem hazardFree_of_good {env : SystemEnv R} {gated : Bool} {r : ℕ} {op : AicOp}
    {pre : List Command} {m : AicMemory R} (hgood : good gated env (.aic r op) m)
    (h : ∀ e ∈ pre, ¬ e.Hazard gated (.aic r op)) : HazardFree env r op pre m where
  l1_kept hcopy r' e he := by
    by_contra hload
    have hread := mem_reads_of_isLoad (Bool.eq_true_of_not_eq_false hload)
    exact h _ he (hazard_of_reads (e := .aic r' e) hread (mem_writes_of_isCopy hcopy))
  l0_kept stage hstage r' kPart initializeC he := by
    cases hstage with
    | inl ha =>
        exact h _ he
          (hazard_of_reads (p := .l0a stage) (by simp [Command.reads, AicOp.reads]) ha)
    | inr hb =>
        exact h _ he
          (hazard_of_reads (p := .l0b stage) (by simp [Command.reads, AicOp.reads]) hb)
  l0_own := by
    rintro stage kPart initializeC rfl
    exact hgood
  l0c_kept hmmad r' e he := by
    by_contra hcommit
    have hread := mem_reads_of_isCommit (Bool.eq_true_of_not_eq_false hcommit)
    exact h _ he (hazard_of_reads (e := .aic r' e) hread (mem_writes_of_isMmad hmmad))
  committed := by
    rintro slotId rfl
    exact (commit_gram env.cube (env.tasks r) hgood slotId).1

omit [Semiring R] in
theorem aicStart_serial (env : SystemEnv R) (n : ℕ) (m : AicMemory R) :
    (net false).Serial (aicProgram env.cube.mode env.tasks n) (aicStart env n m).todo := by
  have hparty : ∀ k ∈ aicProgram env.cube.mode env.tasks n, k.party = .aic := by
    intro k hk
    simp only [aicProgram, aicBlock, List.mem_append, List.mem_map, List.mem_flatMap] at hk
    rcases hk with (⟨op, -, rfl⟩ | ⟨r, -, op, -, rfl⟩) | ⟨op, -, rfl⟩ <;> rfl
  intro i
  cases i with
  | aic => exact List.filter_eq_self.mpr fun k hk => decide_eq_true (hparty k hk)
  | aiv lane =>
      refine List.filter_eq_nil_iff.mpr ?_
      intro k hk h
      cases (hparty k hk).symm.trans (of_decide_eq_true h)

/-- The commands of a round, as commands of the group. -/
theorem meets_aicBlock (gated : Bool) {env : SystemEnv R} {r : ℕ}
    (hfit : (env.tasks r).validChunk = true → (env.tasks r).Fits) :
    Meets (act env) (good gated env) (fun _ => True) (aicBlock env.cube.mode env.tasks r)
      (fun m => (env.tasks r).validChunk = true → env.HoldsGram r (r % 2) m) :=
  Meets.map (meets_taskOps hfit _ _)

/-- The commands outside the task loop act on no buffer. -/
theorem meets_aic_of_not_acts {gated : Bool} {env : SystemEnv R} {P : AicMemory R → Prop}
    {ops : List AicOp} (h : ∀ op ∈ ops, op.acts = false) (r : ℕ) :
    Meets (act env) (good gated env) P (ops.map (.aic r)) P :=
  Meets.map (meets_of_not_acts env.cube (env.tasks r) (env.tile r) P h)

theorem meets_aicProgram {env : SystemEnv R} {n : ℕ}
    (hfit : ∀ r < n, (env.tasks r).validChunk = true → (env.tasks r).Fits) :
    Meets (act env) (good false env) (fun _ => True) (aicProgram env.cube.mode env.tasks n)
      (fun _ => True) := by
  have hrounds := Meets.flatMap (I := fun _ _ => True) fun r hr =>
    (meets_aicBlock false (hfit r hr)).weaken (fun _ _ => trivial) (fun _ _ => trivial)
  exact ((meets_aic_of_not_acts (by decide) 0).append hrounds).append
    (meets_aic_of_not_acts (by decide) n)

/-- The start satisfies what every interleaving keeps. -/
theorem aicStart_kept {env : SystemEnv R} {n : ℕ}
    (hfit : ∀ r < n, (env.tasks r).validChunk = true → (env.tasks r).Fits) (m : AicMemory R) :
    (discipline false env).Kept (fun _ => 0)
      (Net.exec (act env) (aicProgram env.cube.mode env.tasks n) m)
      (aicProgram env.cube.mode env.tasks n) (fun _ => 0) m := by
  obtain ⟨hruns, hrun⟩ :
      (net false).Runs (aicProgram env.cube.mode env.tasks n) (fun _ => 0) ∧ _ :=
    Net.runs_of_passes (aicProgram_plain env.tasks n)
  refine ⟨hruns, hrun, ?_, (meets_aicProgram hfit m trivial).1, rfl⟩
  intro F hF
  have hF : F ∈ cubeFences false env.cube.mode := by simpa [discipline, slotFences] using hF
  exact (aicProgram_passes env.tasks n hF).safe

/-- **No interleaving of the AIC's pipes has a hazard.**  For every sequence of tasks,
every reachable state meets `HazardFree`, is final or has a step, and keeps no token when
it is final. -/
theorem cube_hazard_free (env : SystemEnv R) (n : ℕ)
    (hfit : ∀ r < n, (env.tasks r).validChunk = true → (env.tasks r).Fits) (m : AicMemory R)
    {s : State Party Command Flag (AicMemory R)}
    (hs : (net false).Reachable (act env) (aicStart env n m) s) :
    (∀ r op pre post, (net false).Enabled s .aic pre (.aic r op) post →
      HazardFree env r op pre s.mem) ∧
    (¬ Net.Final s → ∃ s', (net false).Step (act env) s s') ∧
    (Net.Final s → ∀ f, s.tokens f = 0) := by
  obtain ⟨L, hL, hkept⟩ := Net.reachable_serial
    ((discipline false env).stable_kept (fun _ => 0) _) (aicStart_serial env n m)
    (aicStart_kept hfit m) hs
  refine ⟨?_, ?_, ?_⟩
  · intro r op pre post henabled
    obtain ⟨hgood, hfree⟩ := hkept.enabled hL henabled
    exact hazardFree_of_good hgood fun e he hazard => hfree e he (Or.inr hazard)
  · exact Net.exists_step hL hkept.runs
  · intro hfinal f
    rw [(hkept.final hL hfinal).1]

/-- Three tasks, the second one invalid, from buffers full of sevens. -/
theorem cube_hazard_free_three :
    ∃ s', (net false).Step (act (R := ℤ) ⟨⟨.k128, 3, 0, fun a => a⟩, fun r => ⟨r ≠ 1, 0, 40⟩⟩)
      (aicStart ⟨⟨.k128, 3, 0, fun a => a⟩, fun r => ⟨r ≠ 1, 0, 40⟩⟩ 3 rowMemory) s' :=
  (cube_hazard_free (R := ℤ) ⟨⟨.k128, 3, 0, fun a => a⟩, fun r => ⟨r ≠ 1, 0, 40⟩⟩ 3
    (fun _ _ _ => (by decide : (0 : ℤ) < 40 ∧ (40 : ℤ) ≤ 64)) rowMemory .refl).2.1 fun h => by
      have := h .aic
      simp [aicStart, aicProgram, initPersistentEvents] at this

end Interleavings

end ChunkScaledDotKkt
