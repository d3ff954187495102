import ChunkScaledDotKkt.Schedule
import Mathlib.Data.Int.ConditionallyCompleteOrder

/-!
# Launches

A `Launch` is tiling data with the sizes the device formulas rely on: at least one
chunk, one KV head and one group, and a task count that is their product.  The host
function produces one for every accepted call whose group count fits its 32-bit
field.

## Main results

* `Launch.taskCount_eq`, `Launch.taskId_eq` — the kernel's formulas compute the
  dealing of `Launch.schedule`.
* `Launch.bijOn_taskId` — every task runs in one round of one group.
* `host_schedule_exact` — the same for what the host writes, with balance.
-/

namespace ChunkScaledDotKkt

open Optiling MachineInt

/-- Tiling data with positive sizes that multiply to the task count. -/
structure Launch where
  tiling : ChunkScaledDotKktTilingData
  chunks : ℕ
  kvHeads : ℕ
  groups : ℕ
  chunks_pos : 0 < chunks
  kvHeads_pos : 0 < kvHeads
  groups_pos : 0 < groups
  total_eq : tiling.totalTaskCount = ((chunks * kvHeads : ℕ) : ℤ)
  hg_eq : tiling.hg = kvHeads
  blockDim_eq : tiling.blockDim = groups

namespace Launch

variable (L : Launch)

/-- The scheme every `Process` of the launch selects. -/
def schedule : Schedule := Schedule.ofFlags L.tiling.chunkLocal L.tiling.groupAligned

/-- The rounds of a group. -/
def count (g : ℕ) : ℕ := L.schedule.count L.chunks L.kvHeads L.groups g

/-- The chunk and the KV head of a group's round. -/
def place (g r : ℕ) : ℕ × ℕ := L.schedule.place L.chunks L.kvHeads L.groups g r

/-- The task id of a group's round. -/
def task (g r : ℕ) : ℕ := L.schedule.task L.chunks L.kvHeads L.groups g r

theorem taskCount_eq (g : ℕ) : L.tiling.taskCount g = L.count g := by
  unfold ChunkScaledDotKktTilingData.taskCount
  rw [L.total_eq, L.hg_eq, L.blockDim_eq]
  exact scheduledTaskCount_eq L.kvHeads_pos g

theorem taskId_eq (g r : ℕ) : L.tiling.taskId g r = L.task g r := by
  unfold ChunkScaledDotKktTilingData.taskId
  rw [L.total_eq, L.hg_eq, L.blockDim_eq]
  exact scheduledTaskId_eq L.kvHeads_pos g r

/-- The group-aligned scheme finds a group count that its KV heads divide. -/
theorem dvd_groups (h : L.schedule = .groupAligned) : L.kvHeads ∣ L.groups := by
  have hflag : L.tiling.groupAligned = true := by
    unfold schedule Schedule.ofFlags at h
    split at h
    · assumption
    · split at h <;> cases h
  have := (useChampion_dvd hflag).2.2
  rw [L.hg_eq, L.blockDim_eq] at this
  exact_mod_cast this

theorem exact : Partition.Exact (L.chunks * L.kvHeads) L.groups L.count L.task :=
  Schedule.exact L.kvHeads_pos L.groups_pos L.schedule L.dvd_groups

theorem balanced : Partition.Balanced L.groups L.count :=
  Schedule.balanced L.kvHeads_pos L.groups_pos L.schedule L.dvd_groups

theorem place_lt {g r : ℕ} (hg : g < L.groups) (hr : r < L.count g) :
    (L.place g r).1 < L.chunks ∧ (L.place g r).2 < L.kvHeads :=
  Schedule.place_lt L.kvHeads_pos L.groups_pos L.dvd_groups hg hr

/-- The task id determines chunk and KV head by division. -/
theorem task_div_mod {g r : ℕ} (hg : g < L.groups) (hr : r < L.count g) :
    L.task g r / L.kvHeads = (L.place g r).1 ∧ L.task g r % L.kvHeads = (L.place g r).2 := by
  have hlt := (L.place_lt hg hr).2
  have htask : L.task g r = (L.place g r).1 * L.kvHeads + (L.place g r).2 := rfl
  rw [htask]
  constructor
  · rw [Nat.mul_comm, Nat.mul_add_div L.kvHeads_pos, Nat.div_eq_of_lt hlt, Nat.add_zero]
  · rw [Nat.mul_comm, Nat.mul_add_mod, Nat.mod_eq_of_lt hlt]

end Launch

/-- The (group, round) pairs of a launch. -/
def ChunkScaledDotKktTilingData.rounds (tiling : ChunkScaledDotKktTilingData) : Set (ℤ × ℤ) :=
  {p | 0 ≤ p.1 ∧ p.1 < tiling.blockDim ∧ 0 ≤ p.2 ∧ p.2 < tiling.taskCount p.1}

/-- Every task below the task count is executed in exactly one round of exactly one
group, and the round counts of two groups differ by at most one. -/
def ChunkScaledDotKktTilingData.ExactlyScheduled (tiling : ChunkScaledDotKktTilingData) : Prop :=
  Set.BijOn (fun p => tiling.taskId p.1 p.2) tiling.rounds (Set.Ico 0 tiling.totalTaskCount) ∧
  ∀ g g', 0 ≤ g → g < tiling.blockDim → 0 ≤ g' → g' < tiling.blockDim →
    tiling.taskCount g ≤ tiling.taskCount g' + 1

namespace Launch

variable (L : Launch)

theorem mem_rounds {p : ℤ × ℤ} :
    p ∈ L.tiling.rounds ↔ ∃ g r : ℕ, g < L.groups ∧ r < L.count g ∧ p = ((g : ℤ), (r : ℤ)) := by
  obtain ⟨x, y⟩ := p
  simp only [ChunkScaledDotKktTilingData.rounds, Set.mem_ofPred_eq, L.blockDim_eq]
  constructor
  · rintro ⟨hx, hxb, hy, hyc⟩
    lift x to ℕ using hx
    lift y to ℕ using hy
    rw [L.taskCount_eq] at hyc
    exact ⟨x, y, by exact_mod_cast hxb, by exact_mod_cast hyc, rfl⟩
  · rintro ⟨g, r, hg, hr, heq⟩
    obtain ⟨rfl, rfl⟩ := Prod.mk.inj heq
    rw [L.taskCount_eq]
    exact ⟨by omega, by exact_mod_cast hg, by omega, by exact_mod_cast hr⟩

/-- **The schedule of a launch is an exact, balanced partition of its tasks.** -/
theorem exactlyScheduled : L.tiling.ExactlyScheduled := by
  obtain ⟨hmaps, hinj, hsurj⟩ := L.exact
  refine ⟨⟨?_, ?_, ?_⟩, ?_⟩
  · intro p hp
    obtain ⟨g, r, hg, hr, rfl⟩ := L.mem_rounds.mp hp
    have hlt : L.task g r < L.chunks * L.kvHeads := hmaps (x := (g, r)) ⟨hg, hr⟩
    simp only [Set.mem_Ico, L.taskId_eq, L.total_eq]
    exact ⟨by omega, by exact_mod_cast hlt⟩
  · intro p hp q hq heq
    obtain ⟨g, r, hg, hr, rfl⟩ := L.mem_rounds.mp hp
    obtain ⟨g', r', hg', hr', rfl⟩ := L.mem_rounds.mp hq
    simp only [L.taskId_eq] at heq
    have hmem : (g, r) ∈ {p : ℕ × ℕ | p.1 < L.groups ∧ p.2 < L.count p.1} := ⟨hg, hr⟩
    have hmem' : (g', r') ∈ {p : ℕ × ℕ | p.1 < L.groups ∧ p.2 < L.count p.1} := ⟨hg', hr'⟩
    have htask : L.task g r = L.task g' r' := by exact_mod_cast heq
    obtain ⟨rfl, rfl⟩ := Prod.mk.inj (hinj hmem hmem' htask)
    rfl
  · intro x hx
    rw [Set.mem_Ico, L.total_eq] at hx
    lift x to ℕ using hx.1
    obtain ⟨⟨g, r⟩, ⟨hg, hr⟩, htask⟩ := hsurj (Set.mem_Iio.mpr (by exact_mod_cast hx.2))
    refine ⟨((g : ℤ), (r : ℤ)), L.mem_rounds.mpr ⟨g, r, hg, hr, rfl⟩, ?_⟩
    simp only [L.taskId_eq]
    exact_mod_cast htask
  · intro g g' hg hgb hg' hgb'
    rw [L.blockDim_eq] at hgb hgb'
    lift g to ℕ using hg
    lift g' to ℕ using hg'
    rw [L.taskCount_eq, L.taskCount_eq]
    exact_mod_cast L.balanced g (by exact_mod_cast hgb) g' (by exact_mod_cast hgb')

/-! ## The host produces launches -/

/-- The tiling data of an accepted shape and a positive AIC count is a launch when
the group count fits its 32-bit field. -/
theorem exists_of_tilingOf {shape : ShapeInfo} (hs : shape.Accepted) {aicNum : ℤ}
    (hfit : min aicNum (selectBlockDim shape aicNum) < 2147483648) :
    ∃ L : Launch, L.tiling = tilingOf shape aicNum := by
  obtain ⟨m, hm⟩ := Int.eq_ofNat_of_zero_le hs.numChunks_pos.le
  obtain ⟨h, hh⟩ := Int.eq_ofNat_of_zero_le hs.hg_pos.le
  have hblock : (tilingOf shape aicNum).blockDim =
      max 1 (min aicNum (selectBlockDim shape aicNum)) :=
    i32_eq_self (by omega) (by omega)
  obtain ⟨b, hb⟩ := Int.eq_ofNat_of_zero_le
    (show 0 ≤ max 1 (min aicNum (selectBlockDim shape aicNum)) by omega)
  have hmpos := hs.numChunks_pos
  have hhpos := hs.hg_pos
  refine ⟨⟨tilingOf shape aicNum, m, h, b, by omega, by omega, by omega, ?_, hh, ?_⟩, rfl⟩
  · simp only [tilingOf, hm, hh]
    push_cast
    rfl
  · rw [hblock, hb]

end Launch

/-- **The host's schedule is exact and balanced** whenever the number of groups it
selects fits the 32-bit field it is written to. -/
theorem host_schedule_exact {context : TilingContext} {shape : ShapeInfo} {out : TilingOutput}
    (hshape : validateAndReadShape context = .ok shape)
    (hout : chunkScaledDotKktTilingFunc context = .ok out)
    (hfit : min (context.coreNumAic.toNat : ℤ)
      (selectBlockDim shape context.coreNumAic.toNat) < 2147483648) :
    out.tiling.ExactlyScheduled := by
  obtain ⟨shape', hshape', -, htiling⟩ := chunkScaledDotKktTilingFunc_ok hout
  rw [hshape] at hshape'
  cases hshape'
  obtain ⟨L, hL⟩ := Launch.exists_of_tilingOf (validateAndReadShape_accepted hshape) hfit
  rw [htiling, ← hL]
  exact L.exactlyScheduled

/-- A call with 40 chunks of one KV head with three query heads each on 20 AICs: the
head-major schedule with two rounds a group. -/
def sampleContext : TilingContext where
  kShape := some [1, 2560, 1, 128]
  betaShape := some [1, 3, 2560]
  gShape := some [1, 3, 2560]
  offsetShape := some [41]
  platformInfo := true
  coreNumAic := 20
  libApiWorkSpaceSize := 0
  tilingData := true
  setScheduleMode := true
  setBlockDim := true
  workspaceSizes := true

theorem host_schedule_exact_sample :
    (tilingOf ⟨2560, 3, 1, 128, 40⟩ 20).ExactlyScheduled :=
  @host_schedule_exact sampleContext ⟨2560, 3, 1, 128, 40⟩
    ⟨tilingOf ⟨2560, 3, 1, 128, 40⟩ 20, 1, .k128, 655360⟩ rfl rfl (by decide)

/-- A call on `2^31` AICs with `2^31` chunks: the group count wraps to `-2^31`. -/
def hugeCoreContext : TilingContext where
  kShape := some [1, 1, 1, 128]
  betaShape := some [1, 1, 1]
  gShape := some [1, 1, 1]
  offsetShape := some [2147483649]
  platformInfo := true
  coreNumAic := 2147483648
  libApiWorkSpaceSize := 0
  tilingData := true
  setScheduleMode := true
  setBlockDim := true
  workspaceSizes := true

/-- The narrowed group count leaves tasks without a group. -/
theorem host_schedule_not_exact : ¬ ∀ (context : TilingContext) (out : TilingOutput),
    chunkScaledDotKktTilingFunc context = .ok out → out.tiling.ExactlyScheduled := by
  intro h
  have htiling : (chunkScaledDotKktTilingFunc hugeCoreContext).toOption.map (·.tiling) =
      some ⟨2147483648, 1, 1, -2147483648, 1⟩ := by decide +kernel
  cases hout : chunkScaledDotKktTilingFunc hugeCoreContext with
  | error e =>
      rw [hout] at htiling
      cases htiling
  | ok out =>
      rw [hout] at htiling
      have heq : out.tiling = ⟨2147483648, 1, 1, -2147483648, 1⟩ := Option.some.inj htiling
      obtain ⟨⟨-, -, hsurj⟩, -⟩ := h _ _ hout
      rw [heq] at hsurj
      obtain ⟨p, ⟨h0, hlt, -⟩, -⟩ := hsurj (show (0 : ℤ) ∈ Set.Ico 0 2147483648 by simp)
      exact absurd (lt_of_le_of_lt h0 hlt) (by decide)

/-- The launch of `sampleContext`: 40 chunks of one KV head on 20 groups. -/
def sampleLaunch : Launch where
  tiling := ⟨40, 2560, 1, 20, 3⟩
  chunks := 40
  kvHeads := 1
  groups := 20
  chunks_pos := by decide
  kvHeads_pos := by decide
  groups_pos := by decide
  total_eq := rfl
  hg_eq := rfl
  blockDim_eq := rfl

end ChunkScaledDotKkt
