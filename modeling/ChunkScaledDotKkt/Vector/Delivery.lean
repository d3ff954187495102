import ChunkScaledDotKkt.Lib.Blocks
import ChunkScaledDotKkt.Vector.OutputMemory

/-!
# What a lane delivers

A lane with the log of the elements it has stored.  The values that an element may get
are a predicate, `IsResult`; a launch relies on the enqueued tensor to hold one for every
element its record moves.  Between two batches either nothing is ready or such a tensor
is, and the elements of the batches so far are those stored and those ready to be.

## Main results

* `meets_batch` — a batch allocates, computes and queues one tensor of results, and
  launches the one before.
* `meets_laneEnd` — the last launch empties the port.
-/

namespace ChunkScaledDotKkt

open MachineInt Buffer VectorStage BlockCopy TokenNet

variable {F : Type}

/-! ## A lane and its log -/

/-- The elements that the next launch stores. -/
def OutputPort.pending (t : ℤ) (port : OutputPort F) : List ℤ :=
  match port.ready, port.enqueued with
  | some record, some _ => targets (record.launchMoves t)
  | _, _ => []

/-- Every move of the ready record carries a result. -/
def OutputPort.Right (t : ℤ) (IsResult : ℤ → F → Prop) (port : OutputPort F) : Prop :=
  ∀ record ∈ port.ready, ∀ output ∈ port.enqueued, ∀ move ∈ record.launchMoves t,
    IsResult move.dst (output move.src)

/-- A lane with the elements it has stored, in order. -/
structure LaneRun (F : Type) where
  machine : LaneMachine F
  stored : List ℤ

namespace LaneRun

variable (t : ℤ) (IsResult : ℤ → F → Prop) (elems : List ℤ) (s : LaneRun F)

/-- Nothing is ready, and the elements of all batches are stored. -/
def Idle : Prop := s.machine.port.ready = none ∧ s.stored = elems

/-- At most one tensor of results is ready, and its elements are the last ones. -/
def Sent : Prop :=
  s.Idle elems ∨ ∃ record output, s.machine.port.ready = some record ∧
    s.machine.port.enqueued = some output ∧
    (∀ move ∈ record.launchMoves t, IsResult move.dst (output move.src)) ∧
    s.stored ++ targets (record.launchMoves t) = elems

variable {t IsResult elems s}

theorem Idle.sent (h : s.Idle elems) : s.Sent t IsResult elems := Or.inl h

/-- Only the output port and the log matter. -/
theorem Sent.congr {s' : LaneRun F} (h : s.Sent t IsResult elems)
    (hport : s'.machine.port = s.machine.port) (hstored : s'.stored = s.stored) :
    s'.Sent t IsResult elems := by
  simp only [Sent, Idle, hport, hstored] at h ⊢
  exact h

theorem Idle.congr {s' : LaneRun F} (h : s.Idle elems)
    (hport : s'.machine.port = s.machine.port) (hstored : s'.stored = s.stored) :
    s'.Idle elems := by
  simp only [Idle, hport, hstored] at h ⊢
  exact h

theorem Sent.right (h : s.Sent t IsResult elems) : s.machine.port.Right t IsResult := by
  intro record hrecord output houtput
  rw [Option.mem_def] at hrecord houtput
  cases h with
  | inl h =>
      rw [h.1] at hrecord
      cases hrecord
  | inr h =>
      obtain ⟨record', output', hready, henqueued, hright, -⟩ := h
      rw [hready] at hrecord
      rw [henqueued] at houtput
      cases hrecord
      cases houtput
      exact hright

end LaneRun

open LaneRun

section

variable [CommRing F] [LinearOrder F] (env : LaneEnv F) (stale : ℕ → ℕ → F)

/-- The effect of a command on a lane and its log. -/
def LaneOp.run (op : LaneOp) (s : LaneRun F) : LaneRun F where
  machine := op.machine env stale s.machine
  stored :=
    if op = .launchReadyOutput then s.stored ++ s.machine.port.pending env.t else s.stored

/-- A launch relies on results. -/
def LaneOp.good (t : ℤ) (IsResult : ℤ → F → Prop) (op : LaneOp) (s : LaneRun F) : Prop :=
  op = .launchReadyOutput → s.machine.port.Right t IsResult

variable {env stale} {IsResult : ℤ → F → Prop} {elems : List ℤ} {ops : List LaneOp}
  {Γ Δ : List (Fact F)}

/-- The facts of a context and the state of the output. -/
abbrev holding (env : LaneEnv F) (Γ : List (Fact F)) (P : LaneRun F → Prop) (s : LaneRun F) :
    Prop :=
  (laneLogic env).Sat Γ s.machine.mem ∧ P s

/-- What tensors hold is the same in every environment. -/
theorem sat_laneLogic {env' : LaneEnv F} {m : LaneMemory F} (h : (laneLogic env).Sat Γ m) :
    (laneLogic env').Sat Γ m := by
  intro fact hfact
  have hholds : fact.Holds m := h fact hfact
  exact hholds

variable (stale) in
/-- **A command stores results.**  What it adds to the log gets them, and nothing else
changes. -/
theorem LaneOp.run_gm {t : ℤ} (ht : env.t = t) {op : LaneOp} {s : LaneRun F}
    (hgood : op.good t IsResult s) :
    ∃ new, (op.run env stale s).stored = s.stored ++ new ∧
      (∀ a ∈ new, IsResult a ((op.run env stale s).machine.port.gm a)) ∧
      ∀ a, a ∉ new → (op.run env stale s).machine.port.gm a = s.machine.port.gm a := by
  subst ht
  by_cases hlaunch : op = .launchReadyOutput
  · subst hlaunch
    have hstored : (run env stale .launchReadyOutput s).stored =
        s.stored ++ s.machine.port.pending env.t := by
      simp [run]
    refine ⟨s.machine.port.pending env.t, hstored, ?_⟩
    have hright := hgood rfl
    obtain ⟨⟨mem, ⟨enqueued, ready, gm⟩, allocs⟩, stored⟩ := s
    cases ready with
    | none => exact ⟨nofun, fun a _ => rfl⟩
    | some record =>
        cases enqueued with
        | none => exact ⟨nofun, fun a _ => rfl⟩
        | some output =>
            exact ⟨fun a ha => store_of_forall (hright record rfl output rfl) ha,
              fun a ha => store_miss ha⟩
  · refine ⟨[], ?_, nofun, fun a _ => ?_⟩
    · rw [run, if_neg hlaunch, List.append_nil]
    · cases op with
      | launchReadyOutput => exact absurd rfl hlaunch
      | _ => rfl

/-- The elements of the log have got results, and the others are as they were. -/
structure LaneRun.Delivered (IsResult : ℤ → F → Prop) (gm : ℤ → F) (s : LaneRun F) : Prop where
  result : ∀ a ∈ s.stored, IsResult a (s.machine.port.gm a)
  other : ∀ a, a ∉ s.stored → s.machine.port.gm a = gm a

theorem LaneRun.Delivered.run {t : ℤ} (ht : env.t = t) {gm : ℤ → F} {op : LaneOp} {s : LaneRun F}
    (hgood : op.good t IsResult s) (h : s.Delivered IsResult gm) :
    (op.run env stale s).Delivered IsResult gm := by
  obtain ⟨new, hstored, hnew, hold⟩ := LaneOp.run_gm stale ht hgood
  constructor
  · intro a ha
    by_cases hin : a ∈ new
    · exact hnew a hin
    · rw [hstored, List.mem_append] at ha
      rw [hold a hin]
      exact h.result a (ha.resolve_right hin)
  · intro a ha
    rw [hstored, List.mem_append, not_or] at ha
    rw [hold a ha.2]
    exact h.other a ha.1

/-! ## Agreement -/

omit [LinearOrder F] in
/-- A copy of rows of a slot depends on these rows alone. -/
theorem copyKkt_congr {chunkLen rowCount : ℕ} {src src' : ℕ → F} (hlen : chunkLen ≤ 64)
    (h : ∀ a < rowCount * 64, src a = src' a) (dst : ℕ → F) :
    VectorStage.copyKkt chunkLen rowCount src dst =
      VectorStage.copyKkt chunkLen rowCount src' dst := by
  have hrows : (u16 rowCount).toNat ≤ rowCount := by
    simp only [u16]
    omega
  by_cases hfull : chunkLen = 64
  · rw [VectorStage.copyKkt, VectorStage.copyKkt, if_pos hfull, if_pos hfull]
    refine scatter_congr fun a ha => h a ?_
    rw [List.mem_range, u32] at ha
    omega
  · rw [VectorStage.copyKkt, VectorStage.copyKkt, if_neg hfull, if_neg hfull]
    refine scatter_congr ?_
    rintro ⟨row, j⟩ hmem
    have hrow : row < (u16 rowCount).toNat := (mem_grid.mp hmem).1
    have hstride : ((u32 (chunkLen * 4 : ℕ)).toNat + (u32 ((64 - chunkLen) * 4 : ℕ)).toNat) /
        (32 / 8) = 64 := by
      simp only [u32]
      omega
    have hblock : (u32 (chunkLen * 4 : ℕ)).toNat / (32 / 8) = chunkLen := by
      simp only [u32]
      omega
    simp only [if_true, Nat.zero_add, Nat.sub_zero, hstride, hblock]
    refine if_ctx_congr Iff.rfl (fun hin => h _ ?_) fun _ => rfl
    have hle : (row + 1) * 64 ≤ rowCount * 64 := Nat.mul_le_mul_right 64 (by omega)
    omega

/-- The lanes differ at most in what they see of the output. -/
structure LaneRun.Same (s s' : LaneRun F) : Prop where
  mem : s.machine.mem = s'.machine.mem
  enqueued : s.machine.port.enqueued = s'.machine.port.enqueued
  ready : s.machine.port.ready = s'.machine.port.ready
  allocs : s.machine.allocs = s'.machine.allocs
  stored : s.stored = s'.stored

omit [CommRing F] [LinearOrder F] in
theorem LaneRun.Same.trans {s s' s'' : LaneRun F} (h : s.Same s') (h' : s'.Same s'') : s.Same s'' :=
  ⟨h.mem.trans h'.mem, h.enqueued.trans h'.enqueued, h.ready.trans h'.ready,
    h.allocs.trans h'.allocs, h.stored.trans h'.stored⟩

/-- A lane that sees another output. -/
def LaneRun.onto (s : LaneRun F) (gm : ℤ → F) : LaneRun F :=
  { s with machine := { s.machine with port := { s.machine.port with gm := gm } } }

omit [CommRing F] [LinearOrder F] in
theorem LaneRun.same_onto (s : LaneRun F) (gm : ℤ → F) : (s.onto gm).Same s :=
  ⟨rfl, rfl, rfl, rfl, rfl⟩

/-- The rows that a command copies are the same in both workspaces. -/
def LaneOp.CopiesSame (w w' : ℕ → F) : LaneOp → Prop
  | .copyKkt groupId slotId chunkLen rowStart rowCount => chunkLen ≤ 64 ∧
      ∀ a < rowCount * 64,
        w (PackedGramMmadCubeStage.slotOffset groupId slotId + rowStart * 64 + a) =
          w' (PackedGramMmadCubeStage.slotOffset groupId slotId + rowStart * 64 + a)
  | _ => True

theorem LaneOp.act_congr {op : LaneOp} {w' : ℕ → F} (h : op.CopiesSame env.kktWorkspace w')
    (m : LaneMemory F) : op.act env m = op.act { env with kktWorkspace := w' } m := by
  cases op with
  | copyKkt groupId slotId chunkLen rowStart rowCount =>
      let off := PackedGramMmadCubeStage.slotOffset groupId slotId + rowStart * 64
      have hcopy : VectorStage.copyKkt chunkLen rowCount (slice off env.kktWorkspace) =
          VectorStage.copyKkt chunkLen rowCount (slice off w') := funext (copyKkt_congr h.1 h.2)
      simp only [act]
      rw [hcopy]
  | queue id op => cases op <;> rfl
  | copyGateOrBeta id firstHeadId start chunkLen batchHeads => cases id <;> rfl
  | _ => rfl

/-- **A lane does not see the output**, nor the rest of the workspace. -/
theorem LaneOp.run_same {op : LaneOp} {w' : ℕ → F} (hcopy : op.CopiesSame env.kktWorkspace w')
    {s s' : LaneRun F} (h : s.Same s') :
    (op.run env stale s).Same (op.run { env with kktWorkspace := w' } stale s') := by
  obtain ⟨⟨mem, ⟨enqueued, ready, gm⟩, allocs⟩, stored⟩ := s
  obtain ⟨⟨mem', ⟨enqueued', ready', gm'⟩, allocs'⟩, stored'⟩ := s'
  obtain ⟨hmem, henqueued, hready, hallocs, hstored⟩ := h
  simp only at hmem henqueued hready hallocs hstored
  subst hmem henqueued hready hallocs hstored
  have hact := LaneOp.act_congr hcopy mem
  cases op with
  | launchReadyOutput =>
      cases ready with
      | none => exact ⟨rfl, rfl, rfl, rfl, rfl⟩
      | some record =>
          cases enqueued with
          | none => exact ⟨rfl, rfl, rfl, rfl, rfl⟩
          | some output => exact ⟨rfl, rfl, rfl, rfl, rfl⟩
  | allocOutput => exact ⟨rfl, rfl, rfl, rfl, rfl⟩
  | enQueOutput => exact ⟨rfl, rfl, rfl, rfl, rfl⟩
  | queueOutput record => exact ⟨rfl, rfl, rfl, rfl, rfl⟩
  | _ => exact ⟨hact, rfl, rfl, rfl, rfl⟩

omit [CommRing F] [LinearOrder F] in
theorem LaneOp.good_same {t : ℤ} {op : LaneOp} {s s' : LaneRun F} (h : s.Same s')
    (hgood : op.good t IsResult s') : op.good t IsResult s := by
  intro hlaunch record hrecord output houtput
  rw [h.ready] at hrecord
  rw [h.enqueued] at houtput
  exact hgood hlaunch record hrecord output houtput

/-! ## Plain commands -/

variable (env stale) in
/-- A plain command other than the launch acts on the tensors alone. -/
theorem LaneOp.run_plain {op : LaneOp} (hplain : op.isPlain = true)
    (hlaunch : op ≠ .launchReadyOutput) (s : LaneRun F) :
    op.run env stale s =
      ⟨{ s.machine with mem := op.act env s.machine.mem }, s.stored⟩ := by
  rw [run, machine_plain hplain hlaunch, if_neg hlaunch]

/-- A launch stores what is ready. -/
theorem launch_idle {s : LaneRun F} (h : s.Sent env.t IsResult elems) :
    (LaneOp.run env stale .launchReadyOutput s).Idle elems := by
  obtain ⟨⟨mem, ⟨enqueued, ready, gm⟩, allocs⟩, stored⟩ := s
  cases h with
  | inl h =>
      obtain ⟨hready, hstored⟩ := h
      simp only at hready hstored
      subst hready
      subst hstored
      constructor
      · rfl
      · simp [LaneOp.run, OutputPort.pending]
  | inr h =>
      obtain ⟨record, output, hready, henqueued, -, hstored⟩ := h
      simp only at hready henqueued hstored
      subst hready
      subst henqueued
      exact ⟨rfl, hstored⟩

variable (stale) in
/-- Plain commands send nothing, and a launch among them leaves nothing ready. -/
theorem run_plain (hplain : ∀ op ∈ ops, op.isPlain = true) {s : LaneRun F}
    (h : s.Sent env.t IsResult elems) :
    Net.Asserts (LaneOp.run env stale) (LaneOp.good env.t IsResult) ops s ∧
      (Net.exec (LaneOp.run env stale) ops s).machine.mem = runLane env ops s.machine.mem ∧
      (Net.exec (LaneOp.run env stale) ops s).Sent env.t IsResult elems ∧
      ((.launchReadyOutput ∈ ops ∨ s.Idle elems) →
        (Net.exec (LaneOp.run env stale) ops s).Idle elems) := by
  induction ops generalizing s with
  | nil => exact ⟨trivial, rfl, h, fun hidle => hidle.resolve_left List.not_mem_nil⟩
  | cons op ops ih =>
      have hrest := fun op' hop' => hplain op' (List.mem_cons_of_mem op hop')
      by_cases hlaunch : op = .launchReadyOutput
      · subst hlaunch
        have hidle : (LaneOp.run env stale .launchReadyOutput s).Idle elems := launch_idle h
        obtain ⟨hasserts, hmem, hsent, hnext⟩ := ih hrest hidle.sent
        exact ⟨⟨fun _ => h.right, hasserts⟩, hmem, hsent, fun _ => hnext (Or.inr hidle)⟩
      · have hrun := LaneOp.run_plain env stale (hplain op (by simp)) hlaunch s
        have hport : (op.run env stale s).machine.port = s.machine.port := by rw [hrun]
        have hstored : (op.run env stale s).stored = s.stored := by rw [hrun]
        obtain ⟨hasserts, hmem, hsent, hnext⟩ := ih hrest (h.congr hport hstored)
        refine ⟨⟨fun heq => absurd heq hlaunch, hasserts⟩, ?_, hsent, ?_⟩
        · refine hmem.trans ?_
          rw [hrun]
          rfl
        · intro hidle
          refine hnext (hidle.imp ?_ fun hidle => hidle.congr hport hstored)
          intro hmem
          exact (List.mem_cons.mp hmem).resolve_left fun heq => hlaunch heq.symm

variable (stale IsResult elems)

theorem meets_plain (hplain : ∀ op ∈ ops, op.isPlain = true)
    (htriple : (laneLogic env).Triple Γ ops Δ) :
    Meets (LaneOp.run env stale) (LaneOp.good env.t IsResult)
      (holding env Γ (Sent env.t IsResult elems)) ops
      (holding env Δ (Sent env.t IsResult elems)) := by
  intro s hs
  obtain ⟨hasserts, hmem, hsent, -⟩ := run_plain stale hplain hs.2
  refine ⟨hasserts, ?_, hsent⟩
  rw [hmem]
  exact htriple _ hs.1

/-- The commands of a batch between the allocation and the queueing launch the batch
before. -/
theorem meets_launching (hplain : ∀ op ∈ ops, op.isPlain = true)
    (hlaunch : .launchReadyOutput ∈ ops) (htriple : (laneLogic env).Triple Γ ops Δ) :
    Meets (LaneOp.run env stale) (LaneOp.good env.t IsResult)
      (holding env Γ (Sent env.t IsResult elems)) ops (holding env Δ (Idle elems)) := by
  intro s hs
  obtain ⟨hasserts, hmem, -, hidle⟩ := run_plain stale hplain hs.2
  refine ⟨hasserts, ?_, hidle (Or.inl hlaunch)⟩
  rw [hmem]
  exact htriple _ hs.1

/-! ## A batch -/

/-- The fact is not about the output tensor. -/
def Fact.OffOutput : Fact F → Prop
  | .tensor ref _ _ => ref.buf ≠ .output
  | .mask _ _ _ => True

/-- The allocation of an output tensor keeps the facts about other tensors. -/
theorem meets_alloc (hoff : ∀ fact ∈ Γ, fact.OffOutput) :
    Meets (LaneOp.run env stale) (LaneOp.good env.t IsResult)
      (holding env Γ (Sent env.t IsResult elems)) [.acquireOutputSlot, .allocOutput]
      (holding env Γ (Sent env.t IsResult elems)) := by
  intro s hs
  refine ⟨⟨nofun, nofun, trivial⟩, ?_, hs.2⟩
  intro fact hfact
  have hfacts := hs.1 fact hfact
  cases fact with
  | tensor ref n val => exact LaneMemory.allocOutput_holds hfacts (hoff _ hfact)
  | mask ref n val => exact hfacts

/-- The queueing of a tensor of results. -/
theorem meets_queue (record : OutputRecord)
    (hright : ∀ m, (laneLogic env).Sat Γ m → ∀ move ∈ record.launchMoves env.t,
      IsResult move.dst (m.f32 .output move.src)) :
    Meets (LaneOp.run env stale) (LaneOp.good env.t IsResult)
      (holding env Γ (Idle elems)) [.enQueOutput, .queueOutput record]
      (holding env Γ (Sent env.t IsResult (elems ++ targets (record.launchMoves env.t)))) := by
  intro s hs
  refine ⟨⟨nofun, nofun, trivial⟩, hs.1, Or.inr ⟨record, s.machine.mem.f32 .output, rfl, rfl,
    hright s.machine.mem hs.1, ?_⟩⟩
  rw [← hs.2.2]
  rfl

/-- **A batch** loads, allocates, computes and queues: its elements follow those of the
batches before. -/
theorem meets_batch {Γ' : List (Fact F)} {loads work rest : List LaneOp} (record : OutputRecord)
    (hloads : ∀ op ∈ loads, op.isPlain = true) (hwork : ∀ op ∈ work, op.isPlain = true)
    (hrest : ∀ op ∈ rest, op.isPlain = true) (hlaunch : .launchReadyOutput ∈ work)
    (hload : (laneLogic env).Triple Γ loads Γ') (hoff : ∀ fact ∈ Γ', fact.OffOutput)
    (hcompute : (laneLogic env).Triple Γ' work Δ) (hfree : (laneLogic env).Triple Δ rest Δ)
    (hright : ∀ m, (laneLogic env).Sat Δ m → ∀ move ∈ record.launchMoves env.t,
      IsResult move.dst (m.f32 .output move.src)) :
    Meets (LaneOp.run env stale) (LaneOp.good env.t IsResult)
      (holding env Γ (Sent env.t IsResult elems))
      (loads ++ ([.acquireOutputSlot, .allocOutput] ++ (work ++
        ([.enQueOutput, .queueOutput record] ++ rest))))
      (holding env Δ (Sent env.t IsResult (elems ++ targets (record.launchMoves env.t)))) :=
  (meets_plain stale IsResult elems hloads hload).append
    ((meets_alloc stale IsResult elems hoff).append
      ((meets_launching stale IsResult elems hwork hlaunch hcompute).append
        ((meets_queue stale IsResult elems record hright).append
          (meets_plain stale IsResult _ hrest hfree))))

/-- **The end of a lane's program** stores what is still ready. -/
theorem meets_laneEnd : Meets (LaneOp.run env stale) (LaneOp.good env.t IsResult)
    (Sent env.t IsResult elems) [.launchReadyOutput, .drainAllOutputSlots] (Idle elems) := by
  intro s hs
  have hplain : ∀ op ∈ [LaneOp.launchReadyOutput, .drainAllOutputSlots], op.isPlain = true := by
    decide
  obtain ⟨hasserts, -, -, hidle⟩ := run_plain stale hplain hs
  exact ⟨hasserts, hidle (Or.inl (by simp))⟩

end

end ChunkScaledDotKkt
