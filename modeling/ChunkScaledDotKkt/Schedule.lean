import ChunkScaledDotKkt.Lib.Partition
import ChunkScaledDotKkt.Tiling
import Mathlib.Tactic.NormNum
import Mathlib.Tactic.Ring

/-!
# The device schedule

Every MIX group computes its own list of tasks from closed formulas.  Three schemes
are in use: cyclic over all tasks, head-major contiguous ranges for `R = 3`, and
contiguous ranges inside one KV group.  The formulas below are those of the kernel;
`Schedule.count` and `Schedule.task` restate them over `ℕ`, where the schemes are
dealings of `Lib.Partition`.

## Main results

* `scheduledTaskCount_eq`, `scheduledTaskId_eq` — the kernel's formulas compute the
  dealings.
* `useChampion_dvd` — the group-aligned scheme is chosen only if `hg` divides
  `blockDim`.
* `Schedule.exact`, `Schedule.balanced` — every task is dealt once, in balance.
-/

namespace ChunkScaledDotKkt

/-! ## The kernel's formulas -/

def CHAMP_GROUP_ALIGNED_CORE_COUNT : ℤ := 16
def CHAMP_SMALL_TASK_MAX : ℤ := 32
def CHAMP_SHALLOW_MANUAL_TASK_MIN : ℤ := 80
def CHAMP_DEEP_MANUAL_TASK_MAX : ℤ := 400
def CHAMP_SHORT_MANUAL_TASK_MAX : ℤ := 256
def CHAMP_MEDIUM_TASK_MAX : ℤ := 512
def CHAMP_GROUP_ALIGNED_LARGE_ROLLBACK : ℤ := 400

/-- Whether a MIX group stays inside one KV group. -/
def useChampionGroupAlignedSchedule (tiling : ChunkScaledDotKktTilingData) : Bool :=
  let taskCount := tiling.totalTaskCount
  let hg := tiling.hg
  let blockDim := tiling.blockDim
  let repeats := tiling.numRepeat
  if taskCount > CHAMP_GROUP_ALIGNED_LARGE_ROLLBACK then false
  else if (repeats ≠ 3 ∧ repeats ≠ 4) ∨ hg ≤ 0 ∨ blockDim ≤ 0 ∨ blockDim.tmod hg ≠ 0 then false
  else if hg = 2 ∧ taskCount > CHAMP_SMALL_TASK_MAX ∧ taskCount ≤ CHAMP_MEDIUM_TASK_MAX then true
  else if blockDim ≠ CHAMP_GROUP_ALIGNED_CORE_COUNT then false
  else if hg = 16 ∧ taskCount > CHAMP_SHALLOW_MANUAL_TASK_MIN ∧
      taskCount ≤ CHAMP_DEEP_MANUAL_TASK_MAX then true
  else if hg = 8 ∧ repeats = 4 ∧ taskCount > CHAMP_SHALLOW_MANUAL_TASK_MIN ∧
      taskCount ≤ CHAMP_SHORT_MANUAL_TASK_MAX then true
  else false

/-- The number of rounds of a MIX group. -/
def scheduledTaskCount (groupId totalTaskCount hg blockDim : ℤ)
    (chunkLocal groupAligned : Bool) : ℤ :=
  if groupAligned then
    let numChunks := totalTaskCount.tdiv hg
    let coresPerKvGroup := blockDim.tdiv hg
    let coreInKvGroup := groupId.tmod coresPerKvGroup
    let chunksPerCore := numChunks.tdiv coresPerKvGroup
    let extraChunks := numChunks - chunksPerCore * coresPerKvGroup
    chunksPerCore + (if coreInKvGroup < extraChunks then 1 else 0)
  else if !chunkLocal then
    if groupId ≥ totalTaskCount then 0
    else (totalTaskCount - 1 - groupId).tdiv blockDim + 1
  else
    let first := (totalTaskCount * groupId).tdiv blockDim
    let last := (totalTaskCount * (groupId + 1)).tdiv blockDim
    last - first

/-- The task of a MIX group in one of its rounds. -/
def scheduledTaskId (groupId localRound totalTaskCount hg blockDim : ℤ)
    (chunkLocal groupAligned : Bool) : ℤ :=
  let numChunks := totalTaskCount.tdiv hg
  if groupAligned then
    let coresPerKvGroup := blockDim.tdiv hg
    let kvHeadId := groupId.tdiv coresPerKvGroup
    let coreInKvGroup := groupId - kvHeadId * coresPerKvGroup
    let chunksPerCore := numChunks.tdiv coresPerKvGroup
    let extraChunks := numChunks - chunksPerCore * coresPerKvGroup
    let chunkStart := coreInKvGroup * chunksPerCore +
      (if coreInKvGroup < extraChunks then coreInKvGroup else extraChunks)
    let chunkId := chunkStart + localRound
    chunkId * hg + kvHeadId
  else if !chunkLocal then
    groupId + localRound * blockDim
  else
    let first := (totalTaskCount * groupId).tdiv blockDim
    let ordinal := first + localRound
    let kvHeadId := ordinal.tdiv numChunks
    let chunkId := ordinal - kvHeadId * numChunks
    chunkId * hg + kvHeadId

/-- `groupAligned` as every `Process` computes it. -/
def ChunkScaledDotKktTilingData.groupAligned (tiling : ChunkScaledDotKktTilingData) : Bool :=
  useChampionGroupAlignedSchedule tiling

/-- `chunkLocal` as every `Process` computes it. -/
def ChunkScaledDotKktTilingData.chunkLocal (tiling : ChunkScaledDotKktTilingData) : Bool :=
  !tiling.groupAligned && tiling.numRepeat == 3

/-- The round count of a group under the tiling's own schedule choice. -/
def ChunkScaledDotKktTilingData.taskCount (tiling : ChunkScaledDotKktTilingData)
    (groupId : ℤ) : ℤ :=
  scheduledTaskCount groupId tiling.totalTaskCount tiling.hg tiling.blockDim
    tiling.chunkLocal tiling.groupAligned

/-- The task of a group's round under the tiling's own schedule choice. -/
def ChunkScaledDotKktTilingData.taskId (tiling : ChunkScaledDotKktTilingData)
    (groupId localRound : ℤ) : ℤ :=
  scheduledTaskId groupId localRound tiling.totalTaskCount tiling.hg tiling.blockDim
    tiling.chunkLocal tiling.groupAligned

/-- The group-aligned schedule is selected only for positive sizes whose group count
is a multiple of `hg`. -/
theorem useChampion_dvd {tiling : ChunkScaledDotKktTilingData}
    (h : useChampionGroupAlignedSchedule tiling = true) :
    0 < tiling.hg ∧ 0 < tiling.blockDim ∧ tiling.hg ∣ tiling.blockDim := by
  simp only [useChampionGroupAlignedSchedule] at h
  split at h
  · exact absurd h (by decide)
  · split at h
    · exact absurd h (by decide)
    · rename_i hguard
      push Not at hguard
      exact ⟨hguard.2.1, hguard.2.2.1, Int.dvd_of_tmod_eq_zero hguard.2.2.2⟩

/-! ## The schemes over `ℕ` -/

/-- The three dealing schemes. -/
inductive Schedule
  | groupAligned
  | cyclic
  | chunkLocal
  deriving Repr, DecidableEq

namespace Schedule

/-- The scheme that a pair of device flags selects. -/
def ofFlags (chunkLocal groupAligned : Bool) : Schedule :=
  if groupAligned then .groupAligned else if chunkLocal then .chunkLocal else .cyclic

/-- Rounds of group `g` for `m` chunks, `h` KV heads and `b` groups. -/
def count (m h b : ℕ) : Schedule → ℕ → ℕ
  | .groupAligned, g => m / (b / h) + if g % (b / h) < m % (b / h) then 1 else 0
  | .cyclic, g => Partition.cyclicCount (m * h) b g
  | .chunkLocal, g => m * h * (g + 1) / b - m * h * g / b

/-- The chunk and the KV head of round `r` of group `g`. -/
def place (m h b : ℕ) : Schedule → ℕ → ℕ → ℕ × ℕ
  | .groupAligned, g, r =>
      (g % (b / h) * (m / (b / h)) + min (g % (b / h)) (m % (b / h)) + r, g / (b / h))
  | .cyclic, g, r => ((g + r * b) / h, (g + r * b) % h)
  | .chunkLocal, g, r =>
      ((m * h * g / b + r) - (m * h * g / b + r) / m * m, (m * h * g / b + r) / m)

/-- The task id of round `r` of group `g`. -/
def task (m h b : ℕ) (s : Schedule) (g r : ℕ) : ℕ :=
  (s.place m h b g r).1 * h + (s.place m h b g r).2

variable {m h b : ℕ}

/-- **Every task is dealt to one group in one round.** -/
theorem exact (hh : 0 < h) (hb : 0 < b) (s : Schedule) (hs : s = .groupAligned → h ∣ b) :
    Partition.Exact (m * h) b (s.count m h b) (s.task m h b) := by
  cases s with
  | groupAligned =>
      obtain ⟨c, rfl⟩ := hs rfl
      have hc : 0 < c := Nat.pos_of_mul_pos_left hb
      have hdiv : h * c / h = c := Nat.mul_div_cancel_left c hh
      have hx := (Partition.exact_remainder (n := m) hc).perHead hc hh
      refine hx.congr (fun g _ => ?_) (fun g _ r _ => ?_)
      · simp only [count, hdiv]
      · simp only [task, place, hdiv]
  | cyclic =>
      refine (Partition.exact_cyclic hb).congr (fun _ _ => rfl) (fun g _ r _ => ?_)
      exact Nat.div_add_mod' _ _
  | chunkLocal =>
      exact (Partition.exact_proportional (n := m * h) hb).relabel (Partition.bijOn_transpose hh)

/-- **Two groups differ by at most one round.** -/
theorem balanced (hh : 0 < h) (hb : 0 < b) (s : Schedule) (hs : s = .groupAligned → h ∣ b) :
    Partition.Balanced b (s.count m h b) := by
  cases s with
  | groupAligned =>
      obtain ⟨c, rfl⟩ := hs rfl
      have hc : 0 < c := Nat.pos_of_mul_pos_left hb
      have hdiv : h * c / h = c := Nat.mul_div_cancel_left c hh
      have := (Partition.balanced_remainder (n := m) (b := c)).perHead (h := h) hc
      intro g hg g' hg'
      simp only [count, hdiv]
      exact this g hg g' hg'
  | cyclic => exact Partition.balanced_cyclic hb
  | chunkLocal => exact Partition.balanced_proportional hb

/-- A scheduled round names a chunk below `m` and a KV head below `h`. -/
theorem place_lt (hh : 0 < h) (hb : 0 < b) {s : Schedule}
    (hs : s = .groupAligned → h ∣ b) {g r : ℕ} (hg : g < b) (hr : r < s.count m h b g) :
    (s.place m h b g r).1 < m ∧ (s.place m h b g r).2 < h := by
  have htask : s.task m h b g r < m * h :=
    (exact hh hb s hs).mapsTo (x := (g, r)) ⟨hg, hr⟩
  have hhead : (s.place m h b g r).2 < h := by
    cases s with
    | groupAligned =>
        obtain ⟨c, rfl⟩ := hs rfl
        simp only [place, Nat.mul_div_cancel_left c hh]
        exact Nat.div_lt_of_lt_mul (by rwa [Nat.mul_comm])
    | cyclic => exact Nat.mod_lt _ hh
    | chunkLocal =>
        refine Nat.div_lt_of_lt_mul ?_
        exact ((Partition.exact_proportional (n := m * h) hb).mapsTo (x := (g, r)) ⟨hg, hr⟩)
  refine ⟨?_, hhead⟩
  by_contra hge
  have := Nat.mul_le_mul_right h (Nat.le_of_not_lt hge)
  unfold task at htask
  omega

end Schedule

/-! ## The formulas compute the schemes -/

section Casts

variable {m h b : ℕ}

/-- A remainder computed by subtraction. -/
theorem sub_div_mul_cast (x c : ℕ) : (x : ℤ) - ((x / c : ℕ) : ℤ) * (c : ℤ) = ((x % c : ℕ) : ℤ) := by
  have := Nat.div_add_mod' x c
  rw [← Nat.cast_mul]
  omega

/-- The first chunk of a group inside its KV group. -/
theorem chunkStart_cast (g m c : ℕ) :
    ((g % c : ℕ) : ℤ) * ((m / c : ℕ) : ℤ) + (if ((g % c : ℕ) : ℤ) < ((m % c : ℕ) : ℤ) then
      ((g % c : ℕ) : ℤ) else ((m % c : ℕ) : ℤ)) =
        ((g % c * (m / c) + min (g % c) (m % c) : ℕ) : ℤ) := by
  rw [Nat.cast_add, Nat.cast_mul]
  split <;> omega

theorem scheduledTaskCount_eq (hh : 0 < h) {chunkLocal groupAligned : Bool} (g : ℕ) :
    scheduledTaskCount g ((m * h : ℕ) : ℤ) h b chunkLocal groupAligned =
      ((Schedule.ofFlags chunkLocal groupAligned).count m h b g : ℕ) := by
  unfold scheduledTaskCount Schedule.ofFlags
  cases groupAligned
  · cases chunkLocal
    · simp only [Bool.false_eq_true, if_false, Bool.not_false, if_true, Schedule.count,
        Partition.cyclicCount]
      by_cases hg : m * h ≤ g
      · have : (g : ℤ) ≥ ((m * h : ℕ) : ℤ) := by exact_mod_cast hg
        rw [if_pos this, if_pos hg]
        rfl
      · have hlt : ¬ (g : ℤ) ≥ ((m * h : ℕ) : ℤ) := by exact_mod_cast hg
        have hsub : ((m * h : ℕ) : ℤ) - 1 - g = ((m * h - 1 - g : ℕ) : ℤ) := by omega
        rw [if_neg hlt, if_neg hg, hsub, ← Int.ofNat_tdiv]
        push_cast
        rfl
    · simp only [Bool.false_eq_true, if_false, Bool.not_true, if_true, Schedule.count]
      have hle : m * h * g / b ≤ m * h * (g + 1) / b :=
        Nat.div_le_div_right (Nat.mul_le_mul_left _ (Nat.le_succ g))
      have h1 : ((m * h : ℕ) : ℤ) * (g : ℤ) = ((m * h * g : ℕ) : ℤ) := by
        push_cast
        ring
      have h2 : ((m * h : ℕ) : ℤ) * ((g : ℤ) + 1) = ((m * h * (g + 1) : ℕ) : ℤ) := by
        push_cast
        ring
      rw [h1, h2, ← Int.ofNat_tdiv, ← Int.ofNat_tdiv, Int.ofNat_sub hle]
  · simp only [if_true, Schedule.count]
    rw [← Int.ofNat_tdiv, Nat.mul_div_cancel m hh, ← Int.ofNat_tdiv, ← Int.ofNat_tdiv,
      ← Int.ofNat_tmod, sub_div_mul_cast]
    simp only [Nat.cast_lt]
    split <;> simp

theorem scheduledTaskId_eq (hh : 0 < h) {chunkLocal groupAligned : Bool} (g r : ℕ) :
    scheduledTaskId g r ((m * h : ℕ) : ℤ) h b chunkLocal groupAligned =
      ((Schedule.ofFlags chunkLocal groupAligned).task m h b g r : ℕ) := by
  unfold scheduledTaskId Schedule.ofFlags
  cases groupAligned
  · cases chunkLocal
    · simp only [Bool.false_eq_true, if_false, Bool.not_false, if_true, Schedule.task,
        Schedule.place]
      rw [Nat.div_add_mod' (g + r * b) h]
      push_cast
      rfl
    · simp only [Bool.false_eq_true, if_false, Bool.not_true, if_true, Schedule.task,
        Schedule.place]
      rw [← Int.ofNat_tdiv (m * h) h, Nat.mul_div_cancel m hh, ← Nat.cast_mul, ← Int.ofNat_tdiv,
        ← Nat.cast_add, ← Int.ofNat_tdiv, ← Nat.cast_mul]
      have hle : (m * h * g / b + r) / m * m ≤ m * h * g / b + r := Nat.div_mul_le_self _ _
      rw [← Int.ofNat_sub hle]
      push_cast
      rfl
  · simp only [if_true, Schedule.task, Schedule.place]
    rw [← Int.ofNat_tdiv (m * h) h, Nat.mul_div_cancel m hh, ← Int.ofNat_tdiv b h,
      ← Int.ofNat_tdiv g (b / h), ← Int.ofNat_tdiv m (b / h)]
    generalize b / h = c
    rw [sub_div_mul_cast, sub_div_mul_cast, chunkStart_cast]
    push_cast
    rfl

end Casts

end ChunkScaledDotKkt
