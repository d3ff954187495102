import ChunkScaledDotKkt.Device

/-!
# What the kernel computes

Every interleaving of all AICs and lanes of a launch, with any contents of the workspace,
of the buffers and of freshly allocated tensors: it ends, and the output then holds the
value of the operator in every element of every chunk in range and what it held before
elsewhere.

While the device runs, each lane is in a state from which its pending commands would, with
the Gram tile of its round in every slot, meet their assertions and store what the lane
owns.  A lane's copy finds that tile, so the lane stays in such a state.

## Main results

* `Launch.DeviceInvariant` — what holds in every reachable state.
* `kernel_computes` — safety, termination and the result.
-/

namespace ChunkScaledDotKkt

open MachineInt Buffer CubeUnit VectorStage BlockCopy TokenNet LaneRun Command

instance : Fintype Party where
  elems := {.aic, .aiv lane0, .aiv lane1}
  complete party := by
    cases party with
    | aic => decide
    | aiv lane => fin_cases lane <;> decide

variable {F : Type} [CommRing F] [LinearOrder F]

/-! ## Tiles -/

/-- Slots with one tile have the same contents. -/
theorem SystemEnv.HoldsGram.agree {R : Type} [Semiring R] {env : SystemEnv R} {r slotId : ℕ}
    {m m' : AicMemory R} (h : env.HoldsGram r slotId m) (h' : env.HoldsGram r slotId m') {a : ℕ}
    (ha : a < 4096) :
    m.workspace (PackedGramMmadCubeStage.slotOffset env.cube.groupId slotId + a) =
      m'.workspace (PackedGramMmadCubeStage.slotOffset env.cube.groupId slotId + a) := by
  have hi : a / 64 < 64 := Nat.div_lt_of_lt_mul ha
  have hj : a % 64 < 64 := Nat.mod_lt a (by decide)
  rw [← Nat.div_add_mod' a 64]
  exact (h _ hi _ hj).trans (h' _ hi _ hj).symm

namespace Launch

variable (L : Launch) (offsets : ChunkOffsets) (x : KernelInputs F) (mode : KMode)

/-- The environment of each round of a lane, with the tile of the round. -/
def tileEnvs (g : ℕ) : ℕ → LaneEnv F := L.roundEnvs x (L.tileMemory offsets x mode g)

end Launch

/-! ## A lane on its way -/

/-- Up to the output, a state from which the commands, with the tile of their round in every
slot, meet their assertions and end with the elements stored. -/
def LaneRun.Completes (envs : ℕ → LaneEnv F) (stale : ℕ → ℕ → F) (t : ℤ) (IsResult : ℤ → F → Prop)
    (elems : List ℤ) (ks : List Command) (s : LaneRun F) : Prop :=
  ∃ s', s.Same s' ∧ Net.Asserts (Command.laneRun envs stale) (Command.laneGood t IsResult) ks s' ∧
    (Net.exec (Command.laneRun envs stale) ks s').Idle elems

namespace LaneRun.Completes

variable {envs : ℕ → LaneEnv F} {stale : ℕ → ℕ → F} {t : ℤ} {IsResult : ℤ → F → Prop}
  {elems : List ℤ} {ks : List Command} {lane : Fin 2} {r : ℕ} {op : LaneOp} {s : LaneRun F}

/-- The next command meets its assertion. -/
theorem good (h : s.Completes envs stale t IsResult elems (.aiv lane r op :: ks)) (gm : ℤ → F) :
    op.good t IsResult (s.onto gm) := by
  obtain ⟨s', hsame, hasserts, -⟩ := h
  exact LaneOp.good_same ((s.same_onto gm).trans hsame) hasserts.1

/-- **The next command keeps the lane on its way**, if it copies the tile of its round. -/
theorem run (h : s.Completes envs stale t IsResult elems (.aiv lane r op :: ks)) {env : LaneEnv F}
    {w : ℕ → F} (henv : envs r = { env with kktWorkspace := w })
    (hcopy : op.CopiesSame env.kktWorkspace w) (gm : ℤ → F) :
    (op.run env stale (s.onto gm)).Completes envs stale t IsResult elems ks := by
  obtain ⟨s', hsame, hasserts, hend⟩ := h
  have hrun : (op.run env stale (s.onto gm)).Same (op.run (envs r) stale s') := by
    rw [henv]
    exact LaneOp.run_same hcopy ((s.same_onto gm).trans hsame)
  exact ⟨op.run (envs r) stale s', hrun, hasserts.2, hend⟩

/-- With nothing left to do, everything is stored. -/
theorem stored_eq (h : s.Completes envs stale t IsResult elems []) : s.stored = elems := by
  obtain ⟨s', hsame, -, hend⟩ := h
  exact hsame.stored.trans hend.2

end LaneRun.Completes

namespace Launch

variable (L : Launch) (offsets : ChunkOffsets) (x : KernelInputs F) (mode : KMode)
  (stale : ℕ → Fin 2 → ℕ → ℕ → F) (calls : ℕ → Fin 2 → List LaneCall) (m : DeviceMemory F)

/-! ## The device on its way -/

/-- Some lane has stored the element. -/
def Stored (L : Launch) (m : DeviceMemory F) (a : ℤ) : Prop :=
  ∃ g < L.groups, ∃ lane, a ∈ (m.lane g lane).stored

/-- What holds in every reachable state: all lanes are on their way, the stored elements have
the operator's values and the others are as they were. -/
structure DeviceInvariant (s : Family ℕ Party Command Flag (DeviceMemory F)) : Prop where
  lanes : ∀ g < L.groups, ∀ lane,
    (s.mem.lane g lane).Completes (L.tileEnvs offsets x mode g) (stale g lane) L.tiling.t
      (L.IsElement offsets x mode.kDim) (L.elements offsets (calls g lane)) (s.todo g (.aiv lane))
  result : ∀ a, L.Stored s.mem a → L.IsElement offsets x mode.kDim a (s.mem.gm a)
  other : ∀ a, ¬ L.Stored s.mem a → s.mem.gm a = m.gm a

variable {L offsets x mode stale calls m} {s : Family ℕ Party Command Flag (DeviceMemory F)}
  (hsized : L.Sized mode) (hw : ∀ c < L.chunks, ¬ offsets.Wraps c) (hwalks : L.Walks offsets calls)

include hsized hw hwalks in
/-- **The start** is on its way. -/
theorem deviceInvariant_start (hexp : ∀ a b, x.exp a * x.exp (-b) = x.exp (a - b))
    (hidle : ∀ g < L.groups, ∀ lane, (m.lane g lane).Idle []) :
    L.DeviceInvariant offsets x mode stale calls m (L.deviceStart offsets mode calls m) := by
  have hnone : ∀ a, ¬ L.Stored m a := by
    rintro a ⟨g, hg, lane, ha⟩
    rw [(hidle g hg lane).2] at ha
    cases ha
  refine ⟨?_, fun a ha => absurd ha (hnone a), fun a _ => rfl⟩
  intro g hg lane
  have htiles : L.HoldsTiles offsets x mode g (L.tileMemory offsets x mode g) :=
    fun r _ _ => L.tileMemory_holdsGram offsets x mode g r
  obtain ⟨hasserts, hend⟩ := (hwalks g hg lane).meets_laneCommands hsized.numRepeat_pos hg
    hsized.stride_lt hsized.t_lt lane.isLt hexp (stale g lane) htiles hw _ (hidle g hg lane)
  have htodo : (L.deviceStart offsets mode calls m).todo g (.aiv lane) =
      L.laneCommands offsets g lane (calls g lane) := by
    simp [deviceStart, hg, programs]
  rw [htodo]
  exact ⟨_, ⟨rfl, rfl, rfl, rfl, rfl⟩, hasserts, hend⟩

include hsized hw hwalks in
/-- Who issues an enabled command. -/
theorem enabled_program (hs : L.DeviceReachable offsets x mode stale calls m s) {g : ℕ} {i : Party}
    {pre post : List Command} {k : Command}
    (h : (net true).Enabled (s.member g s.mem) i pre k post) :
    g < L.groups ∧ k.party = i ∧ k.InSlots g := by
  have hk : k ∈ s.todo g i := by
    have hsplit : s.todo g i = pre ++ k :: post := h.split
    simp [hsplit]
  have hstart : k ∈ (L.deviceStart offsets mode calls m).todo g i :=
    (Family.Reachable.sublist hs g i).subset hk
  have hg : g < L.groups := by
    by_contra hno
    simp [deviceStart, hno] at hstart
  obtain ⟨m', R, m₁, -, hR, -⟩ := group_kept hsized hw hwalks hg hs
  rw [← hR i, List.mem_filter] at hk
  exact ⟨hg, of_decide_eq_true hk.2, programs_inSlots hsized hw hwalks m g i k hstart⟩

include hsized hw hwalks in
/-- **A lane's command sees the tile of its round.** -/
theorem copiesSame_of_enabled (hs : L.DeviceReachable offsets x mode stale calls m s) {g r : ℕ}
    {lane : Fin 2} {pre post : List Command} {op : LaneOp}
    (h : (net true).Enabled (s.member g s.mem) (.aiv lane) pre (.aiv lane r op) post) :
    op.CopiesSame s.mem.workspace (L.tileMemory offsets x mode g r).workspace := by
  obtain ⟨hg, -, hslots⟩ := enabled_program hsized hw hwalks hs h
  cases op with
  | copyKkt groupId slotId chunkLen rowStart rowCount =>
      obtain ⟨rfl, rfl, hlen, hrows⟩ := hslots
      refine ⟨hlen, ?_⟩
      intro a ha
      have hgram := group_copy hsized hw hwalks hg hs h
      rw [Nat.add_assoc]
      exact hgram.agree (L.tileMemory_holdsGram offsets x mode _ r) (by omega)
  | _ => trivial

/-- A command of an AIC changes no lane and no output. -/
theorem DeviceInvariant.aic (h : L.DeviceInvariant offsets x mode stale calls m s) {g r : ℕ}
    {op : AicOp} {pre post : List Command} :
    L.DeviceInvariant offsets x mode stale calls m
      (s.fire (net true) (L.deviceAct offsets x mode stale) g .aic pre (.aic r op) post) where
  lanes g' hg' lane' := by
    have htodo : (s.fire (net true) (L.deviceAct offsets x mode stale) g .aic pre (.aic r op)
        post).todo g' (.aiv lane') = s.todo g' (.aiv lane') := by
      by_cases hg : g' = g
      · subst hg
        exact Family.fire_todo_of_ne (by simp)
      · rw [Family.fire_todo_other hg]
    rw [htodo]
    exact h.lanes g' hg' lane'
  result := h.result
  other := h.other

include hsized hw hwalks in
/-- **A lane's command** keeps the lane on its way, and what it stores are results. -/
theorem DeviceInvariant.aiv (hs : L.DeviceReachable offsets x mode stale calls m s)
    (h : L.DeviceInvariant offsets x mode stale calls m s) {g r : ℕ} {lane : Fin 2} {op : LaneOp}
    {post : List Command}
    (henabled : (net true).Enabled (s.member g s.mem) (.aiv lane) [] (.aiv lane r op) post) :
    L.DeviceInvariant offsets x mode stale calls m
      (s.fire (net true) (L.deviceAct offsets x mode stale) g (.aiv lane) [] (.aiv lane r op)
        post) := by
  obtain ⟨hg, -, -⟩ := enabled_program hsized hw hwalks hs henabled
  have hsplit : s.todo g (.aiv lane) = .aiv lane r op :: post := henabled.split
  have hlane := h.lanes g hg lane
  rw [hsplit] at hlane
  have ht : (x.laneEnv L.tiling.t s.mem.workspace).t = L.tiling.t := rfl
  obtain ⟨new, hstored, hnew, hold⟩ := LaneOp.run_gm (stale g lane) ht (hlane.good s.mem.gm)
  set s' := s.fire (net true) (L.deviceAct offsets x mode stale) g (.aiv lane) [] (.aiv lane r op)
    post with hs'
  have hself : s'.mem.lane g lane =
      op.run (x.laneEnv L.tiling.t s.mem.workspace) (stale g lane) (s.mem.laneRun g lane) := by
    simp [hs', Family.fire, deviceAct]
  have hothers : ∀ g' lane', (g', lane') ≠ (g, lane) →
      s'.mem.lane g' lane' = s.mem.lane g' lane' ∧
        s'.todo g' (.aiv lane') = s.todo g' (.aiv lane') := by
    intro g' lane' hne
    by_cases hg' : g' = g
    · subst hg'
      have hlane' : lane' ≠ lane := fun heq => hne (by rw [heq])
      exact ⟨by simp [hs', Family.fire, deviceAct, hlane'],
        Family.fire_todo_of_ne (by simp [hlane'])⟩
    · exact ⟨by simp [hs', Family.fire, deviceAct, hg'], by rw [hs', Family.fire_todo_other hg']⟩
  have hiff : ∀ a, L.Stored s'.mem a ↔ L.Stored s.mem a ∨ a ∈ new := by
    intro a
    constructor
    · rintro ⟨g', hg', lane', ha⟩
      by_cases heq : (g', lane') = (g, lane)
      · cases heq
        rw [hself, DeviceMemory.laneRun, hstored, List.mem_append] at ha
        exact ha.imp (fun ha => ⟨g, hg, lane, ha⟩) id
      · rw [(hothers g' lane' heq).1] at ha
        exact Or.inl ⟨g', hg', lane', ha⟩
    · rintro (⟨g', hg', lane', ha⟩ | ha)
      · by_cases heq : (g', lane') = (g, lane)
        · cases heq
          refine ⟨g, hg, lane, ?_⟩
          rw [hself, DeviceMemory.laneRun, hstored]
          exact List.mem_append_left _ ha
        · refine ⟨g', hg', lane', ?_⟩
          rw [(hothers g' lane' heq).1]
          exact ha
      · refine ⟨g, hg, lane, ?_⟩
        rw [hself, DeviceMemory.laneRun, hstored]
        exact List.mem_append_right _ ha
  refine ⟨?_, ?_, ?_⟩
  · intro g' hg' lane'
    by_cases heq : (g', lane') = (g, lane)
    · cases heq
      have htodo : s'.todo g (.aiv lane) = post := Family.fire_todo
      rw [hself, htodo]
      exact hlane.run rfl (copiesSame_of_enabled hsized hw hwalks hs henabled) s.mem.gm
    · obtain ⟨hmem, htodo⟩ := hothers g' lane' heq
      rw [hmem, htodo]
      exact h.lanes g' hg' lane'
  · intro a ha
    by_cases hin : a ∈ new
    · exact hnew a hin
    · have hgm : s'.mem.gm a = s.mem.gm a := hold a hin
      rw [hgm]
      exact h.result a (((hiff a).mp ha).resolve_right hin)
  · intro a ha
    rw [hiff, not_or] at ha
    have hgm : s'.mem.gm a = s.mem.gm a := hold a ha.2
    rw [hgm]
    exact h.other a ha.1

include hsized hw hwalks in
/-- **Every step keeps the invariant.** -/
theorem DeviceInvariant.step (hs : L.DeviceReachable offsets x mode stale calls m s)
    (h : L.DeviceInvariant offsets x mode stale calls m s)
    {s' : Family ℕ Party Command Flag (DeviceMemory F)}
    (hstep : Family.Step (net true) inOrder (L.deviceAct offsets x mode stale) s s') :
    L.DeviceInvariant offsets x mode stale calls m s' := by
  cases hstep with
  | @fire g i pre k post henabled hordered =>
      obtain ⟨-, hparty, -⟩ := enabled_program hsized hw hwalks hs henabled
      subst hparty
      cases k with
      | aic r op => exact h.aic
      | aiv lane r op =>
          obtain rfl := hordered nofun
          exact h.aiv hsized hw hwalks hs henabled

include hsized hw hwalks in
/-- **Every reachable state satisfies the invariant.** -/
theorem deviceInvariant (hexp : ∀ a b, x.exp a * x.exp (-b) = x.exp (a - b))
    (hidle : ∀ g < L.groups, ∀ lane, (m.lane g lane).Idle [])
    (hs : L.DeviceReachable offsets x mode stale calls m s) :
    L.DeviceInvariant offsets x mode stale calls m s := by
  induction hs with
  | refl => exact deviceInvariant_start hsized hw hwalks hexp hidle
  | tail hreach hstep ih => exact ih.step hsized hw hwalks hreach hstep

/-! ## The result -/

/-- The output holds the operator's values on all elements and is as before elsewhere. -/
structure Computed (L : Launch) (offsets : ChunkOffsets) (x : KernelInputs F) (kDim : ℕ)
    (before after : ℤ → F) : Prop where
  element : ∀ a v, L.IsElement offsets x kDim a v → after a = v
  other : ∀ a, (∀ v, ¬ L.IsElement offsets x kDim a v) → after a = before a

/-- Every element has an owner. -/
theorem IsElement.owned {kDim : ℕ} {a : ℤ} {v : F} (h : L.IsElement offsets x kDim a v)
    (hrep : 1 ≤ L.tiling.numRepeat) :
    ∃ g < L.groups, ∃ lane < 2, L.Owned offsets g lane a := by
  obtain ⟨c, hc, hin, head, h0, hlt, i, j, hi, hj, rfl, -⟩ := h
  have htoken : offsets.getValue c ≤ offsets.getValue c + i ∧
      offsets.getValue c + i < offsets.getValue (c + 1) := by omega
  obtain ⟨g, hg, r, hr, lane, hlane, b, howns⟩ :=
    exists_owner hrep hc hin h0 hlt htoken.1 htoken.2
  exact ⟨g, hg, lane, hlane, r, hr, b, head, _, j, hj, howns, rfl⟩

/-- **At the end** everything is stored. -/
theorem DeviceInvariant.computed (h : L.DeviceInvariant offsets x mode stale calls m s)
    (hrep : 1 ≤ L.tiling.numRepeat) (hmono : offsets.Nondecreasing L.chunks)
    (hwalks : L.Walks offsets calls) (hfinal : s.Final) :
    L.Computed offsets x mode.kDim m.gm s.mem.gm := by
  have hstored : ∀ a v, L.IsElement offsets x mode.kDim a v → L.Stored s.mem a := by
    intro a v helement
    obtain ⟨g, hg, lane, hlane, howned⟩ := helement.owned hrep
    refine ⟨g, hg, ⟨lane, hlane⟩, ?_⟩
    have hdone := h.lanes g hg ⟨lane, hlane⟩
    rw [hfinal] at hdone
    rw [hdone.stored_eq]
    exact ((hwalks g hg ⟨lane, hlane⟩).mem_elements hrep hmono hg hlane).mpr howned
  constructor
  · intro a v helement
    exact (h.result a (hstored a v helement)).unique hmono helement
  · intro a hnone
    exact h.other a fun hstored => hnone _ (h.result a hstored)

/-- An element holds what it held before or its value. -/
theorem DeviceInvariant.gm_eq (h : L.DeviceInvariant offsets x mode stale calls m s) (a : ℤ) :
    s.mem.gm a = m.gm a ∨ L.IsElement offsets x mode.kDim a (s.mem.gm a) := by
  by_cases hstored : L.Stored s.mem a
  · exact Or.inr (h.result a hstored)
  · exact Or.inl (h.other a hstored)

/-! ## Progress -/

/-- There are no other groups. -/
theorem todo_outside (hs : L.DeviceReachable offsets x mode stale calls m s) {g : ℕ}
    (hg : g ∉ Finset.range L.groups) (i : Party) : s.todo g i = [] := by
  have hsub := Family.Reachable.sublist hs g i
  rw [Finset.mem_range] at hg
  simp only [deviceStart, if_neg hg] at hsub
  exact List.sublist_nil.mp hsub

include hsized hw hwalks in
/-- **The device never hangs.** -/
theorem device_step (hs : L.DeviceReachable offsets x mode stale calls m s) (hfinal : ¬ s.Final) :
    ∃ s', Family.Step (net true) inOrder (L.deviceAct offsets x mode stale) s s' := by
  obtain ⟨g, i, hi⟩ : ∃ g i, s.todo g i ≠ [] := by
    by_contra hno
    push Not at hno
    exact hfinal hno
  have hg : g < L.groups := by
    by_contra hno
    exact hi (todo_outside hs (by simpa using hno) i)
  exact group_step hsized hw hwalks hg hs hi

include hsized hw hwalks in
/-- From every reachable state the device can finish. -/
theorem device_finishes (hs : L.DeviceReachable offsets x mode stale calls m s) :
    ∃ s', L.DeviceReachable offsets x mode stale calls m s' ∧ s'.Final := by
  induction hn : s.size (Finset.range L.groups) using Nat.strong_induction_on generalizing s with
  | _ n ih =>
      by_cases hfinal : s.Final
      · exact ⟨s, hs, hfinal⟩
      · obtain ⟨s', hstep⟩ := device_step hsized hw hwalks hs hfinal
        have hlt := hstep.size_lt fun g => todo_outside hs
        exact ih _ (hn ▸ hlt) (hs.tail hstep) rfl

include hsized hw hwalks in
/-- **The device keeps to its slots.** -/
theorem device_workspace (hs : L.DeviceReachable offsets x mode stale calls m s) {a : ℕ}
    (ha : PackedGramMmadCubeStage.slotOffset L.groups 0 ≤ a) :
    s.mem.workspace a = m.workspace a := by
  induction hs with
  | refl => rfl
  | @tail s s' hreach hstep ih =>
      rw [← ih]
      cases hstep with
      | @fire g i pre k post henabled hordered =>
          obtain ⟨hg, -, hslots⟩ := enabled_program hsized hw hwalks hreach henabled
          cases k with
          | aic r op =>
              have hslot : (g + 1) * 2 + 0 ≤ L.groups * 2 + 0 := by omega
              exact act_workspace_other (x.cubeEnv mode L.tiling.hg g) hslots _
                (Or.inr ((Nat.mul_le_mul_right 4096 hslot).trans ha))
          | aiv lane r op => rfl

end Launch

/-- **What the kernel computes.**  The launch has at least one query head for each KV head,
`t` below `2^30`, rows of K of fewer than 65536 elements and lane and round numbers below
`2^31` (`Sized`), and the offsets do not decrease.  The loops of all lanes end, and then in
every interleaving of their programs with those of the AICs a reachable state is final or
has a step, every step leaves less to do, an element holds what it held before or the
operator's value, and at the end all elements of the chunks in range hold that value,
nothing else has changed and no token is left. -/
theorem kernel_computes (L : Launch) (offsets : ChunkOffsets) (x : KernelInputs F) (mode : KMode)
    (hsized : L.Sized mode) (hmono : offsets.Nondecreasing L.chunks)
    (hexp : ∀ a b, x.exp a * x.exp (-b) = x.exp (a - b)) (stale : ℕ → Fin 2 → ℕ → ℕ → F)
    (m : DeviceMemory F) (hidle : ∀ g < L.groups, ∀ lane, (m.lane g lane).Idle []) :
    ∃ calls : ℕ → Fin 2 → List LaneCall,
      (∀ g < L.groups, ∀ lane : Fin 2, ∀ fuel : ℕ, L.tiling.taskCount g < fuel →
        process L.tiling offsets (2 * g + lane : ℕ) fuel = some (calls g lane)) ∧
      ∀ s, L.DeviceReachable offsets x mode stale calls m s →
        (¬ s.Final →
          ∃ s', Family.Step (net true) inOrder (L.deviceAct offsets x mode stale) s s') ∧
        (∀ s', Family.Step (net true) inOrder (L.deviceAct offsets x mode stale) s s' →
          s'.size (Finset.range L.groups) < s.size (Finset.range L.groups)) ∧
        (∀ a, s.mem.gm a = m.gm a ∨ L.IsElement offsets x mode.kDim a (s.mem.gm a)) ∧
        (s.Final → L.Computed offsets x mode.kDim m.gm s.mem.gm ∧
          ∀ g < L.groups, ∀ f, s.tokens g f = 0) := by
  have hw : ∀ c < L.chunks, ¬ offsets.Wraps c := fun c hc => hmono.not_wraps hc
  obtain ⟨calls, hwalks, hloops⟩ := L.exists_walks offsets
  refine ⟨calls, hloops, ?_⟩
  intro s hs
  have hinv := Launch.deviceInvariant hsized hw hwalks hexp hidle hs
  refine ⟨?_, ?_, hinv.gm_eq, ?_⟩
  · exact Launch.device_step hsized hw hwalks hs
  · intro s' hstep
    exact hstep.size_lt fun g => Launch.todo_outside hs
  · intro hfinal
    exact ⟨hinv.computed hsized.numRepeat_pos hmono hwalks hfinal,
      fun g hg f => Launch.group_done hsized hw hwalks hg hs (hfinal g) f⟩

/-! ### 20 groups over the reals -/

/-- Memory full of old values. -/
def staleDevice : DeviceMemory ℝ where
  aic g := ⟨fun a => a, fun _ a => a, fun _ a => a, fun a => a, fun _ => g⟩
  lane _ _ := staleRun
  workspace a := a
  gm a := a

theorem sampleLaunch_sized : sampleLaunch.Sized .k128 :=
  ⟨by decide, by decide, by decide, by decide, by decide⟩

/-- Columns 1 and 2 of the row of token 1 on 20 groups. -/
theorem kernel_computes_rising : ∃ calls, ∀ s,
    sampleLaunch.DeviceReachable .full risingInputs .k128 (fun _ _ _ _ => 7) calls staleDevice s →
      s.Final → s.mem.gm 65 = 0 ∧ s.mem.gm 66 = Real.exp (-1) * 128 := by
  obtain ⟨calls, -, h⟩ := kernel_computes sampleLaunch .full risingInputs .k128 sampleLaunch_sized
    (ChunkOffsets.full_nondecreasing (by decide)) exp_mul_exp_neg (fun _ _ _ _ => 7) staleDevice
    fun _ _ _ => ⟨rfl, rfl⟩
  refine ⟨calls, fun s hs hfinal => ?_⟩
  have hcomputed := ((h s hs).2.2.2 hfinal).1
  have h0 : ChunkOffsets.full.getValue (0 : ℕ) = 0 := by decide
  have h1 : ChunkOffsets.full.getValue ((0 : ℕ) + 1) = 64 := by decide
  have hin : ChunkOffsets.full.InRange sampleLaunch.tiling.t (0 : ℕ) := by
    constructor <;> decide
  have helement : ∀ j < 64, sampleLaunch.IsElement .full risingInputs 128 (64 + j : ℕ)
      (risingInputs.element sampleLaunch.tiling 128 0 64 0 1 j) := by
    intro j hj
    refine ⟨0, by decide, hin, 0, le_refl 0, by decide, 1, j, ?_, hj, ?_, ?_⟩
    · rw [h0, h1]
      decide
    · rw [h0, elementOffset, ROW_ELEMS]
      push_cast
      ring
    · rw [h0, h1]
      rfl
  refine ⟨(hcomputed.element _ _ (helement 1 (by decide))).trans ?_,
    (hcomputed.element _ _ (helement 2 (by decide))).trans ?_⟩
  · simp [KernelInputs.element]
  · have h2 : Int.toNat 2 = 2 := rfl
    norm_num [KernelInputs.element, KernelInputs.g, KernelInputs.beta, KernelInputs.k, risingInputs,
      h2]

end ChunkScaledDotKkt
