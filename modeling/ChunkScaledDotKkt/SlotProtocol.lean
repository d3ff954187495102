import ChunkScaledDotKkt.Cube.Hazards
import ChunkScaledDotKkt.Vector.Protocol
import Mathlib.Data.List.Pairwise

/-!
# The READY/FREE slot protocol

One AIC and its two lanes over any number of rounds.  All three programs are serialized
round by round: the AIC's task, then each lane's part.  Between two rounds a READY
counter is empty, and a FREE counter holds the token of the last round on its slot when a
later round will wait for it.

## Main results

* `slotFence_passes` — the fence of every cross-core flag along the serialization.
* `slot_protocol` — deadlock freedom, slot contents and counters in every interleaving.
-/

namespace ChunkScaledDotKkt

open Buffer CubeUnit PackedGramMmadCubeStage VectorStage TokenNet Command

/-! ## The programs -/

/-- The commands of a lane in round `r`. -/
def laneBlock (lane : Fin 2) (parts : List (List LaneOp)) (r : ℕ) : List Command :=
  (parts.getD r []).map (.aiv lane r)

def laneEnd : List LaneOp := [.launchReadyOutput, .drainAllOutputSlots]

/-- `Process` of a lane for `n` rounds. -/
def laneProgram (lane : Fin 2) (parts : List (List LaneOp)) (n : ℕ) : List Command :=
  (List.range n).flatMap (laneBlock lane parts) ++ laneEnd.map (.aiv lane n)

def Command.laneOp? : Command → Option LaneOp
  | .aic _ _ => none
  | .aiv _ _ op => some op

theorem map_getD_range (L : List (List LaneOp)) :
    (List.range L.length).map (fun r => L.getD r []) = L := by
  refine List.ext_getElem (by simp) ?_
  intro i h1 h2
  simp [h2]

/-- Without its round numbers the program is the one of the vector stage. -/
theorem laneProgram_ops (lane : Fin 2) (tiling : ChunkScaledDotKktTilingData) (groupId : ℕ)
    (items : List LaneItem) :
    (laneProgram lane (laneParts tiling groupId items)
      (laneParts tiling groupId items).length).filterMap Command.laneOp? =
    laneOps tiling groupId items := by
  have hops : ∀ r (ops : List LaneOp), (ops.map (.aiv lane r)).filterMap Command.laneOp? = ops := by
    intro r ops
    rw [List.filterMap_map]
    exact List.filterMap_some
  rw [laneProgram, laneOps, List.filterMap_append, List.filterMap_flatMap, hops]
  simp only [laneBlock, hops]
  rw [List.flatMap_def, map_getD_range]
  rfl

/-! ## Flags of the lanes along a round -/

/-- The slot of a cross-core flag. -/
def CrossFlag.slot : CrossFlag → ℕ
  | .ready0 => 0
  | .ready1 => 1
  | .free0 => 0
  | .free1 => 1

theorem CrossFlag.slot_lt (flag : CrossFlag) : flag.slot < 2 := by
  cases flag <;> decide

/-- FREE tokens of slot `s` before round `r`: the last round on the slot has left one if
the next one will wait for it. -/
def freeTokens (n s r : ℕ) : ℕ :=
  if r % 2 = s then (if 2 ≤ r ∧ r < n then 1 else 0) else (if 1 ≤ r ∧ r + 1 < n then 1 else 0)

/-- The tokens of a cross-core flag before round `r`. -/
def CrossFlag.tokens (n : ℕ) (flag : CrossFlag) (r : ℕ) : ℕ :=
  if flag.isReady then 0 else freeTokens n flag.slot r

/-- Whether a round before `r` has used the slot. -/
def CrossFlag.mark (flag : CrossFlag) (r : ℕ) : Bool := flag.isReady || flag.slot < r

/-- **A task on the slot of a flag**: it consumes the FREE token of a reused slot and
leaves a READY token. -/
theorem taskOps_slot (mode : KMode) (flag : CrossFlag) (lane : Fin 2) : ∀ valid tail reuse,
    (slotFence true flag lane).Passes (if flag.isReady then 0 else if reuse then 1 else 0)
      (flag.isReady || reuse) ((taskOps mode valid tail reuse flag.slot).map (.aic 0))
      (if flag.isReady then 1 else 0) flag.isReady := by
  cases mode <;> cases flag <;> fin_cases lane <;> decide +kernel

/-- **A lane's part on the slot of a flag**: it consumes the READY token and leaves a FREE
token when the slot will be reused. -/
theorem protocolOps_slot (flag : CrossFlag) (lane : Fin 2) (groupId r : ℕ)
    (work : Option KktCopy) (reuse : Bool) :
    (slotFence true flag lane).Passes (if flag.isReady then 1 else 0) flag.isReady
      ((protocolOps groupId flag.slot work reuse).map (.aiv lane r))
      (if flag.isReady then 0 else if reuse then 1 else 0) true := by
  cases flag <;> fin_cases lane <;> cases work <;> cases reuse <;> exact of_decide_eq_true rfl

/-- A lane's part leaves no event behind. -/
theorem protocolOps_event (lane : Fin 2) (event : HardEvent) (id : EventId)
    (groupId slotId r : ℕ) (work : Option KktCopy) (reuse : Bool) :
    (Fence.plain (net true) (.event (.aiv lane) event id)).Passes 0 true
      ((protocolOps groupId slotId work reuse).map (.aiv lane r)) 0 true := by
  fin_cases lane <;> cases event <;> cases id <;> cases work <;> cases reuse <;>
    exact of_decide_eq_true rfl

/-! ## A round -/

section Round

variable {mode : KMode} {tasks : ℕ → AicTask} {valid : ℕ → Bool} {groupId n r : ℕ}

/-- Commands on other slots do not matter for the flag. -/
theorem slotFence_inert {flag : CrossFlag} {lane : Fin 2} {k : Command}
    (h : k.onSlot flag = false) : (slotFence true flag lane).Inert k := by
  refine ⟨?_, ?_, ?_, ?_⟩
  · by_contra hne
    rw [onSlot_of_waits (Nat.pos_of_ne_zero hne)] at h
    cases h
  · by_contra hne
    rw [onSlot_of_sets (Nat.pos_of_ne_zero hne)] at h
    cases h
  · simp [slotFence, fence, h]
  · simp [slotFence, fence, h]

theorem onSlot_of_not_protocol {flag : CrossFlag} {lane : Fin 2} {r : ℕ} {op : LaneOp}
    (h : op.isProtocol = false) : (aiv lane r op).onSlot flag = false := by
  cases op <;> first | rfl | cases h

/-- A round on the other slot. -/
theorem onSlot_of_ne {flag : CrossFlag} {slotId : ℕ} (hslot : slotId < 2)
    (hne : slotId ≠ flag.slot) {k : Command} (hk : ∀ s ∈ k.slotId?, s = slotId) :
    k.onSlot flag = false := by
  cases hs : k.slotId? with
  | none => simp [onSlot, hs]
  | some s =>
      obtain rfl := hk s hs
      have hflags : readyFlagForSlot s ≠ flag ∧ freeFlagForSlot s ≠ flag := by
        have hs : s = 0 ∨ s = 1 := by omega
        cases hs with
        | inl h0 => subst h0; cases flag <;> first | exact absurd rfl hne | decide
        | inr h1 => subst h1; cases flag <;> first | exact absurd rfl hne | decide
      simp [onSlot, hs, hflags]

theorem slotId_taskOps (mode : KMode) : ∀ valid tail reuse, ∀ slotId < 2,
    ∀ op ∈ taskOps mode valid tail reuse slotId, ∀ s ∈ (aic 0 op).slotId?, s = slotId := by
  cases mode
  · decide +kernel
  · decide +kernel

theorem slotId_protocolOps {slotId : ℕ} {work : Option KktCopy} {reuse : Bool} {lane : Fin 2}
    {op : LaneOp} (h : op ∈ protocolOps groupId slotId work reuse) :
    ∀ s ∈ (aiv lane r op).slotId?, s = slotId := by
  cases work <;> cases reuse <;> simp [protocolOps] at h <;>
    rcases h with rfl | rfl | rfl | rfl | rfl | rfl | rfl <;> simp [slotId?]

/-- Commands outside the protocol touch no flag. -/
theorem quiet_of_not_protocol {op : LaneOp} (h : op.isProtocol = false) (gated : Bool)
    (lane : Fin 2) (r : ℕ) (f : Flag) :
    (aiv lane r op).waits gated f = 0 ∧ (aiv lane r op).sets gated f = 0 := by
  cases op <;> first | exact ⟨rfl, rfl⟩ | cases h

/-- The lane whose counter it is not. -/
theorem slotFence_inert_of_ne {flag : CrossFlag} {lane lane' : Fin 2} (h : lane' ≠ lane) {r : ℕ}
    {op : LaneOp} : (slotFence true flag lane).Inert (.aiv lane' r op) := by
  refine fence_inert ?_ ?_ <;> cases flag <;> simp [Command.party, Flag.producer, Flag.consumer,
    CrossFlag.isReady, h]

/-- The fences of the cross-core flags tell operations apart, not rounds. -/
theorem slotFence_round {flag : CrossFlag} {lane : Fin 2} {c c' : ℕ} {p p' : Bool}
    {ops : List AicOp} (h : (slotFence true flag lane).Passes c p (ops.map (.aic 0)) c' p')
    (r : ℕ) : (slotFence true flag lane).Passes c p (ops.map (.aic r)) c' p' := by
  refine h.map_congr ?_
  intro op
  cases op <;> exact ⟨rfl, rfl, rfl, rfl⟩

/-- A part of a lane passes a fence as its protocol does. -/
theorem passes_of_protocol {gated : Bool} {F : Fence (net gated)} {lane : Fin 2} {r : ℕ}
    {ops : List LaneOp} {c c' : ℕ} {p p' : Bool}
    (hF : ∀ op : LaneOp, op.isProtocol = false → F.Inert (.aiv lane r op))
    (h : F.Passes c p ((ops.filter LaneOp.isProtocol).map (.aiv lane r)) c' p') :
    F.Passes c p (ops.map (.aiv lane r)) c' p' := by
  let keep : Command → Bool := fun k => match k with
    | .aic _ _ => true
    | .aiv _ _ op => op.isProtocol
  refine Fence.Passes.of_filter keep ?_ ?_
  · intro k hk hkeep
    obtain ⟨op, -, rfl⟩ := List.mem_map.mp hk
    exact hF op hkeep
  · rw [List.filter_map]
    exact h

/-- **The AIC's task between the tokens of two rounds.** -/
theorem aicBlock_slot (mode : KMode) (tasks : ℕ → AicTask) (flag : CrossFlag) (lane : Fin 2)
    (hr : r < n) (hslot : r % 2 = flag.slot) :
    (slotFence true flag lane).Passes (flag.tokens n r) (flag.mark r) (aicBlock mode tasks r)
      (if flag.isReady then 1 else 0) flag.isReady := by
  have h := taskOps_slot mode flag lane (tasks r).validChunk (tasks r).tail (2 ≤ r)
  have hcount : flag.tokens n r = if flag.isReady then 0 else if decide (2 ≤ r) then 1 else 0 := by
    simp [CrossFlag.tokens, freeTokens, hslot, hr]
  have hmark : flag.mark r = (flag.isReady || decide (2 ≤ r)) := by
    have hlt : flag.slot < r ↔ 2 ≤ r := by omega
    simp [CrossFlag.mark, hlt]
  rw [hcount, hmark, aicBlock, aicOps, hslot]
  exact slotFence_round h r

theorem aicBlock_other_slot (mode : KMode) (tasks : ℕ → AicTask) (flag : CrossFlag)
    (lane : Fin 2) (hslot : r % 2 ≠ flag.slot) (c : ℕ) (p : Bool) :
    (slotFence true flag lane).Passes c p (aicBlock mode tasks r) c p := by
  refine .of_inert ?_ c p
  intro k hk
  obtain ⟨op, hop, rfl⟩ := List.mem_map.mp hk
  have hlt := Nat.mod_lt r (Nat.zero_lt_two)
  refine slotFence_inert (onSlot_of_ne hlt hslot ?_)
  have hs := slotId_taskOps mode _ _ _ _ hlt op hop
  cases op <;> exact hs

/-- The tokens and the mark after a round. -/
theorem tokens_succ (flag : CrossFlag) (hslot : r % 2 = flag.slot) :
    flag.tokens n (r + 1) = if flag.isReady then 0 else if r + 2 < n then 1 else 0 := by
  have hnext : (r + 1) % 2 ≠ flag.slot := by omega
  simp [CrossFlag.tokens, freeTokens, hnext, Nat.add_assoc]

theorem mark_succ (flag : CrossFlag) (hslot : r % 2 = flag.slot) : flag.mark (r + 1) = true := by
  have hlt : flag.slot < r + 1 := by omega
  simp [CrossFlag.mark, hlt]

theorem tokens_succ_other (flag : CrossFlag) (hslot : r % 2 ≠ flag.slot) :
    flag.tokens n (r + 1) = flag.tokens n r := by
  have hnext : (r + 1) % 2 = flag.slot := by
    have := flag.slot_lt
    omega
  simp [CrossFlag.tokens, freeTokens, hnext, hslot]

theorem mark_succ_other (flag : CrossFlag) (h : flag.mark r = true) :
    flag.mark (r + 1) = true := by
  simp only [CrossFlag.mark, Bool.or_eq_true, decide_eq_true_eq] at h ⊢
  exact h.imp_right fun hlt => by omega

/-- A round of the group: the AIC, then both lanes. -/
def roundBlock (mode : KMode) (tasks : ℕ → AicTask) (ops : Fin 2 → List LaneOp) (r : ℕ) :
    List Command :=
  aicBlock mode tasks r ++ (ops lane0).map (.aiv lane0 r) ++ (ops lane1).map (.aiv lane1 r)

/-- **A round between the tokens of two rounds.** -/
theorem groupBlock_slot (flag : CrossFlag) (lane : Fin 2) (hr : r < n)
    {ops : Fin 2 → List LaneOp} (hops : ∀ lane, PartOk groupId valid n r (ops lane)) :
    (slotFence true flag lane).Passes (flag.tokens n r) (flag.mark r)
      (roundBlock mode tasks ops r) (flag.tokens n (r + 1)) (flag.mark (r + 1)) := by
  have inert : ∀ lane' c p, lane' ≠ lane ∨ r % 2 ≠ flag.slot →
      (slotFence true flag lane).Passes c p ((ops lane').map (.aiv lane' r)) c p := by
    intro lane' c p h
    obtain ⟨work, -, hprotocol⟩ := hops lane'
    refine passes_of_protocol (fun op hop => slotFence_inert (onSlot_of_not_protocol hop)) ?_
    rw [hprotocol]
    refine .of_inert ?_ c p
    intro k hk
    obtain ⟨op, hop, rfl⟩ := List.mem_map.mp hk
    cases h with
    | inl hlane => exact slotFence_inert_of_ne hlane
    | inr hslot =>
        exact slotFence_inert (onSlot_of_ne (Nat.mod_lt r (by decide)) hslot
          (slotId_protocolOps hop))
  by_cases hslot : r % 2 = flag.slot
  · have own : (slotFence true flag lane).Passes (if flag.isReady then 1 else 0) flag.isReady
        ((ops lane).map (.aiv lane r)) (flag.tokens n (r + 1)) (flag.mark (r + 1)) := by
      obtain ⟨work, -, hprotocol⟩ := hops lane
      refine passes_of_protocol (fun op hop => slotFence_inert (onSlot_of_not_protocol hop)) ?_
      have h := protocolOps_slot flag lane groupId r work (decide (r + 2 < n))
      rw [hprotocol, hslot, tokens_succ flag hslot, mark_succ flag hslot]
      simpa using h
    have haic := aicBlock_slot mode tasks flag lane hr hslot
    fin_cases lane
    · exact (haic.append own).append (inert 1 _ _ (Or.inl (by decide)))
    · exact (haic.append (inert 0 _ _ (Or.inl (by decide)))).append own
  · rw [tokens_succ_other flag hslot]
    have hmark : (slotFence true flag lane).Passes (flag.tokens n r) (flag.mark r) []
        (flag.tokens n r) (flag.mark (r + 1)) := ⟨trivial, rfl, mark_succ_other flag⟩
    have h := (((aicBlock_other_slot mode tasks flag lane hslot _ _).append
      (inert 0 _ _ (Or.inr hslot))).append (inert 1 _ _ (Or.inr hslot))).append hmark
    rwa [List.append_nil] at h

theorem cubeFence_inert {F : Fence (net true)} (hF : F ∈ cubeFences true mode) (lane : Fin 2)
    (op : LaneOp) : F.Inert (.aiv lane r op) := by
  obtain ⟨event, id, earlier, later, rfl⟩ := exists_of_mem_cubeFences hF
  exact fence_inert (by simp [Command.party, Flag.producer])
    (by simp [Command.party, Flag.consumer])

/-- Lanes leave the events of the AIC alone. -/
theorem roundBlock_of_aic {F : Fence (net true)} {ops : Fin 2 → List LaneOp} {c c' : ℕ}
    {p p' : Bool} (hF : ∀ lane op, F.Inert (.aiv lane r op))
    (h : F.Passes c p (aicBlock mode tasks r) c' p') :
    F.Passes c p (roundBlock mode tasks ops r) c' p' := by
  have inert : ∀ lane, F.Passes c' p' ((ops lane).map (.aiv lane r)) c' p' := by
    intro lane
    refine .of_inert ?_ c' p'
    intro k hk
    obtain ⟨op, -, rfl⟩ := List.mem_map.mp hk
    exact hF lane op
  exact (h.append (inert 0)).append (inert 1)

/-- A lane's events are its own. -/
theorem roundBlock_event (lane : Fin 2) (event : HardEvent) (id : EventId)
    {ops : Fin 2 → List LaneOp} (hops : ∀ lane, PartOk groupId valid n r (ops lane)) :
    (Fence.plain (net true) (.event (.aiv lane) event id)).Passes 0 true
      (roundBlock mode tasks ops r) 0 true := by
  have other : ∀ k : Command, k.party ≠ .aiv lane →
      (Fence.plain (net true) (.event (.aiv lane) event id)).Inert k :=
    fun k hk => event_inert hk
  have aic : (Fence.plain (net true) (.event (.aiv lane) event id)).Passes 0 true
      (aicBlock mode tasks r) 0 true := by
    refine .of_inert ?_ 0 true
    intro k hk
    obtain ⟨op, -, rfl⟩ := List.mem_map.mp hk
    exact other _ (by simp [Command.party])
  have lanes : ∀ lane', (Fence.plain (net true) (.event (.aiv lane) event id)).Passes 0 true
      ((ops lane').map (.aiv lane' r)) 0 true := by
    intro lane'
    by_cases hlane : lane' = lane
    · subst hlane
      obtain ⟨work, -, hprotocol⟩ := hops lane'
      refine passes_of_protocol ?_ ?_
      · intro op hop
        obtain ⟨hwaits, hsets⟩ := quiet_of_not_protocol hop true lane' r
          (.event (.aiv lane') event id)
        exact ⟨hwaits, hsets, rfl, rfl⟩
      · rw [hprotocol]
        exact protocolOps_event lane' event id groupId _ r work _
    · refine .of_inert ?_ 0 true
      intro k hk
      obtain ⟨op, -, rfl⟩ := List.mem_map.mp hk
      exact other _ (by simp [Command.party, hlane])
  exact (aic.append (lanes 0)).append (lanes 1)

end Round

/-! ## The serialization -/

/-- All commands of a group, round by round. -/
def groupProgram (mode : KMode) (tasks : ℕ → AicTask) (parts : Fin 2 → List (List LaneOp))
    (n : ℕ) : List Command :=
  initPersistentEvents.map (.aic 0) ++
  (List.range n).flatMap (fun r => roundBlock mode tasks (fun lane => (parts lane).getD r []) r) ++
  drainPersistentEvents.map (.aic n) ++ laneEnd.map (.aiv lane0 n) ++ laneEnd.map (.aiv lane1 n)

section Program

variable {mode : KMode} {tasks : ℕ → AicTask} {parts : Fin 2 → List (List LaneOp)}
  {valid : ℕ → Bool} {groupId n : ℕ}

theorem laneEnd_not_protocol : ∀ op ∈ laneEnd, op.isProtocol = false := by decide

/-- A fence that every segment of the program passes. -/
theorem groupProgram_passes {F : Fence (net true)} (c : ℕ → ℕ) (p : ℕ → Bool)
    (hinit : F.Passes 0 false (initPersistentEvents.map (.aic 0)) (c 0) (p 0))
    (hround : ∀ r < n, F.Passes (c r) (p r)
      (roundBlock mode tasks (fun lane => (parts lane).getD r []) r) (c (r + 1)) (p (r + 1)))
    (hdrain : F.Passes (c n) (p n) (drainPersistentEvents.map (.aic n)) 0 true)
    (hend : ∀ lane (op : LaneOp), op.isProtocol = false → F.Inert (.aiv lane n op)) :
    F.Passes 0 false (groupProgram mode tasks parts n) 0 true := by
  have inert : ∀ lane, F.Passes 0 true (laneEnd.map (.aiv lane n)) 0 true := by
    intro lane
    refine .of_inert ?_ 0 true
    intro k hk
    obtain ⟨op, hop, rfl⟩ := List.mem_map.mp hk
    exact hend lane op (laneEnd_not_protocol op hop)
  exact (((hinit.append (.flatMap hround)).append hdrain).append (inert 0)).append (inert 1)

/-- **The AIC's fences along the serialization.** -/
theorem cubeFence_passes {F : Fence (net true)} (hF : F ∈ cubeFences true mode) :
    F.Passes 0 false (groupProgram mode tasks parts n) 0 true :=
  groupProgram_passes (fun _ => resting F.flag) (fun _ => restingMark F.flag)
    (initPersistentEvents_passes F hF)
    (fun r _ => roundBlock_of_aic (fun lane op => cubeFence_inert hF lane op)
      (aicBlock_rests tasks hF r))
    (passes_round hF n (drainPersistentEvents_passes F hF))
    (fun lane op _ => cubeFence_inert hF lane op)

variable (hparts : ∀ r < n, ∀ lane, PartOk groupId valid n r ((parts lane).getD r []))

include hparts in
/-- **The slot fences along the serialization.** -/
theorem slotFence_passes (flag : CrossFlag) (lane : Fin 2) :
    (slotFence true flag lane).Passes 0 false (groupProgram mode tasks parts n) 0 true := by
  have aic : ∀ {ops : List AicOp} {c : ℕ} {p : Bool} (r : ℕ),
      (∀ op ∈ ops, (aic r op).onSlot flag = false) →
      (slotFence true flag lane).Passes c p (ops.map (.aic r)) c p := by
    intro ops c p r hops
    refine .of_inert ?_ c p
    intro k hk
    obtain ⟨op, hop, rfl⟩ := List.mem_map.mp hk
    exact slotFence_inert (hops op hop)
  have weaken : ∀ {A : List Command} {c c' : ℕ} {p : Bool} (p' : Bool),
      (p = true → p' = true) → (slotFence true flag lane).Passes c p A c' p →
      (slotFence true flag lane).Passes c p A c' p' :=
    fun p' hp h => ⟨h.1, h.2.1, fun hmark => hp (h.2.2 hmark)⟩
  have hstart : flag.tokens n 0 = 0 := by
    cases flag <;> simp [CrossFlag.tokens, freeTokens, CrossFlag.isReady, CrossFlag.slot]
  have hend : flag.tokens n n = 0 := by
    simp [CrossFlag.tokens, freeTokens]
  refine groupProgram_passes (flag.tokens n) flag.mark ?_ ?_ ?_ ?_
  · rw [hstart]
    exact weaken _ (by simp) (aic 0 (by simp [initPersistentEvents, onSlot, slotId?]))
  · exact fun r hr => groupBlock_slot flag lane hr (hparts r hr)
  · rw [hend]
    exact weaken _ (by simp) (aic n (by simp [drainPersistentEvents, onSlot, slotId?]))
  · exact fun lane' op hop => slotFence_inert (onSlot_of_not_protocol hop)

include hparts in
/-- **Every flag along the serialization**: from no tokens to no tokens. -/
theorem groupProgram_plain (f : Flag) :
    (Fence.plain (net true) f).Passes 0 true (groupProgram mode tasks parts n) 0 true := by
  cases f with
  | cross flag lane => exact (slotFence_passes hparts flag lane).plain
  | event party event id =>
      have other : ∀ {ops : List Command}, (∀ k ∈ ops, k.party ≠ party) →
          (Fence.plain (net true) (.event party event id)).Passes 0 true ops 0 true :=
        fun h => .of_inert (fun k hk => event_inert (h k hk)) 0 true
      cases party with
      | aic =>
          by_cases hmem : .event .aic event id ∈ cubeFlags mode
          · obtain ⟨F, hF, hflag⟩ : ∃ F ∈ cubeFences true mode, F.flag = .event .aic event id := by
              rwa [← cubeFlags_eq, List.mem_map] at hmem
            rw [← hflag]
            exact (cubeFence_passes hF).plain
          · have hf : ∀ flag lane, Flag.event .aic event id = .cross flag lane → true = false :=
              fun _ _ h => by cases h
            have hinit : EventsFenced mode initPersistentEvents := by cases mode <;> decide
            have hdrain : EventsFenced mode drainPersistentEvents := by cases mode <;> decide
            exact (groupProgram_passes (fun _ => 0) (fun _ => true)
              (hinit.plain hf hmem 0 0).plain
              (fun r _ => roundBlock_of_aic
                (fun lane op => event_inert (by simp [Command.party]))
                ((aicOps_events mode tasks r).plain hf hmem r 0))
              (hdrain.plain hf hmem n 0)
              (fun lane op _ => event_inert (by simp [Command.party]))).plain
      | aiv lane =>
          have aic : ∀ (ops : List AicOp) (r : ℕ),
              (Fence.plain (net true) (.event (.aiv lane) event id)).Passes 0 true
                (ops.map (.aic r)) 0 true := by
            intro ops r
            refine other ?_
            intro k hk
            obtain ⟨op, -, rfl⟩ := List.mem_map.mp hk
            simp [Command.party]
          refine (groupProgram_passes (fun _ => 0) (fun _ => true) (aic _ 0).plain
            (fun r hr => roundBlock_event lane event id (hparts r hr)) (aic _ n) ?_).plain
          intro lane' op hop
          obtain ⟨hwaits, hsets⟩ := quiet_of_not_protocol hop true lane' n
            (.event (.aiv lane) event id)
          exact ⟨hwaits, hsets, rfl, rfl⟩

end Program

/-! ## Assertions and order -/

section Interleavings

variable {R : Type} [Semiring R] {env : SystemEnv R} {parts : Fin 2 → List (List LaneOp)} {n : ℕ}

/-- Which rounds have a tile. -/
def SystemEnv.valid (env : SystemEnv R) (r : ℕ) : Bool := (env.tasks r).validChunk

/-- A lane's part reads the tile of its round. -/
theorem meets_part_of_lane (lane : Fin 2) {r : ℕ} {ops : List LaneOp}
    (h : PartOk env.cube.groupId env.valid n r ops) :
    Meets (act env) (good true env) (fun m => env.valid r = true → env.HoldsGram r (r % 2) m)
      (ops.map (.aiv lane r)) (fun m => env.valid r = true → env.HoldsGram r (r % 2) m) := by
  refine Meets.of_keeps ?_
  intro k hk m hm
  obtain ⟨op, hop, rfl⟩ := List.mem_map.mp hk
  refine ⟨?_, hm⟩
  cases op
  case copyKkt g s c a b =>
    obtain ⟨rfl, rfl, hvalid⟩ := h.copy hop
    exact fun _ => ⟨rfl, hm hvalid⟩
  all_goals trivial

variable (hfit : ∀ r < n, env.valid r = true → (env.tasks r).Fits)
  (hparts : ∀ r < n, ∀ lane, PartOk env.cube.groupId env.valid n r ((parts lane).getD r []))

include hfit hparts in
/-- **The serialization meets its assertions.** -/
theorem meets_groupProgram :
    Meets (act env) (good true env) (fun _ => True)
      (groupProgram env.cube.mode env.tasks parts n) (fun _ => True) := by
  have hround : ∀ r < n, Meets (act env) (good true env) (fun _ => True)
      (roundBlock env.cube.mode env.tasks (fun lane => (parts lane).getD r []) r)
      (fun _ => True) := by
    intro r hr
    have h := ((meets_aicBlock true (hfit r hr)).append
      (meets_part_of_lane 0 (hparts r hr 0))).append
        (meets_part_of_lane 1 (hparts r hr 1))
    exact h.weaken (fun _ hm => hm) (fun _ _ => trivial)
  have hend : ∀ lane, Meets (act env) (good true env) (fun _ => True)
      (laneEnd.map (.aiv lane n)) (fun _ => True) :=
    fun lane => Meets.of_keeps fun k hk m _ => by
      simp only [laneEnd, List.map_cons, List.map_nil, List.mem_cons, List.not_mem_nil,
        or_false] at hk
      rcases hk with rfl | rfl <;> exact ⟨trivial, trivial⟩
  exact ((((meets_aic_of_not_acts (by decide) 0).append (.flatMap hround)).append
    (meets_aic_of_not_acts (by decide) n)).append (hend 0)).append (hend 1)

/-- A group at its start. -/
def groupStart (env : SystemEnv R) (parts : Fin 2 → List (List LaneOp)) (n : ℕ)
    (mem : AicMemory R) : State Party Command Flag (AicMemory R) where
  todo
    | .aic => aicProgram env.cube.mode env.tasks n
    | .aiv lane => laneProgram lane (parts lane) n
  tokens _ := 0
  mem := mem

theorem filter_aic (i : Party) (ops : List AicOp) (r : ℕ) :
    (ops.map (.aic r)).filter (fun k => (net true).party k = i) =
      if i = .aic then ops.map (.aic r) else [] := by
  rw [List.filter_map]
  by_cases hi : i = .aic
  · rw [if_pos hi, List.filter_eq_self.mpr]
    intro op _
    simp [net, Command.party, hi]
  · have hne : ¬ Party.aic = i := fun h => hi h.symm
    rw [if_neg hi, List.filter_eq_nil_iff.mpr, List.map_nil]
    intro op _
    simp [net, Command.party, hne]

theorem filter_aiv (i : Party) (lane : Fin 2) (ops : List LaneOp) (r : ℕ) :
    (ops.map (.aiv lane r)).filter (fun k => (net true).party k = i) =
      if i = .aiv lane then ops.map (.aiv lane r) else [] := by
  rw [List.filter_map]
  by_cases hi : i = .aiv lane
  · rw [if_pos hi, List.filter_eq_self.mpr]
    intro op _
    simp [net, Command.party, hi]
  · have hne : ¬ Party.aiv lane = i := fun h => hi h.symm
    rw [if_neg hi, List.filter_eq_nil_iff.mpr, List.map_nil]
    intro op _
    simp [net, Command.party, hne]

omit [Semiring R] in
/-- The serialization lists every party's program. -/
theorem groupStart_serial (env : SystemEnv R) (parts : Fin 2 → List (List LaneOp)) (n : ℕ)
    (m : AicMemory R) :
    (net true).Serial (groupProgram env.cube.mode env.tasks parts n)
      (groupStart env parts n m).todo := by
  intro i
  have hround : ∀ r, (roundBlock env.cube.mode env.tasks
      (fun lane => (parts lane).getD r []) r).filter (fun k => (net true).party k = i) =
      (if i = .aic then aicBlock env.cube.mode env.tasks r else []) ++
      (if i = .aiv 0 then laneBlock 0 (parts 0) r else []) ++
      (if i = .aiv 1 then laneBlock 1 (parts 1) r else []) := by
    intro r
    rw [roundBlock, List.filter_append, List.filter_append, aicBlock, filter_aic, filter_aiv,
      filter_aiv]
    rfl
  simp only [groupProgram, List.filter_append, List.filter_flatMap, filter_aic, filter_aiv, hround]
  cases i with
  | aic => simp [groupStart, aicProgram]
  | aiv lane => fin_cases lane <;> simp [groupStart, laneProgram]

/-- The serialization lists the rounds in order. -/
theorem groupProgram_rounds (mode : KMode) (tasks : ℕ → AicTask)
    (parts : Fin 2 → List (List LaneOp)) (n : ℕ) :
    (groupProgram mode tasks parts n).Pairwise (fun e k => e.round ≤ k.round) := by
  have aic : ∀ {ops : List AicOp} {r : ℕ} {k : Command},
      k ∈ ops.map (Command.aic r) → k.round = r := by
    intro ops r k hk
    obtain ⟨op, -, rfl⟩ := List.mem_map.mp hk
    rfl
  have aiv : ∀ {lane : Fin 2} {ops : List LaneOp} {r : ℕ} {k : Command},
      k ∈ ops.map (Command.aiv lane r) → k.round = r := by
    intro lane ops r k hk
    obtain ⟨op, -, rfl⟩ := List.mem_map.mp hk
    rfl
  have const : ∀ {A : List Command} {r : ℕ}, (∀ k ∈ A, k.round = r) →
      A.Pairwise (fun e k => e.round ≤ k.round) := by
    intro A r h
    refine List.pairwise_of_forall_mem_list ?_
    intro e he k hk
    rw [h e he, h k hk]
  have block : ∀ {r : ℕ} {k : Command},
      k ∈ roundBlock mode tasks (fun lane => (parts lane).getD r []) r → k.round = r := by
    intro r k hk
    simp only [roundBlock, List.mem_append] at hk
    rcases hk with (hk | hk) | hk
    · exact aic hk
    · exact aiv hk
    · exact aiv hk
  have rounds : ((List.range n).flatMap fun r =>
      roundBlock mode tasks (fun lane => (parts lane).getD r []) r).Pairwise
        (fun e k => e.round ≤ k.round) := by
    rw [List.pairwise_flatMap]
    refine ⟨fun r _ => const fun k hk => block hk, ?_⟩
    refine (List.pairwise_lt_range).imp ?_
    intro r r' hlt e he k hk
    rw [block he, block hk]
    omega
  have le : ∀ k ∈ (List.range n).flatMap fun r =>
      roundBlock mode tasks (fun lane => (parts lane).getD r []) r, k.round ≤ n := by
    intro k hk
    obtain ⟨r, hr, hk⟩ := List.mem_flatMap.mp hk
    rw [block hk]
    exact (List.mem_range.mp hr).le
  have hend : ∀ k ∈ drainPersistentEvents.map (Command.aic n) ++
      (laneEnd.map (Command.aiv 0 n) ++ laneEnd.map (Command.aiv 1 n)), k.round = n := by
    intro k hk
    simp only [List.mem_append] at hk
    rcases hk with hk | hk | hk
    · exact aic hk
    · exact aiv hk
    · exact aiv hk
  simp only [groupProgram, List.append_assoc]
  refine List.pairwise_append.mpr ⟨const fun k hk => aic hk, List.pairwise_append.mpr
    ⟨rounds, const hend, ?_⟩, ?_⟩
  · intro e he k hk
    rw [hend k hk]
    exact le e he
  · intro e he k _
    rw [aic he]
    exact Nat.zero_le _

/-! ## Every interleaving -/

include hfit hparts in
/-- The start satisfies what every interleaving keeps. -/
theorem groupStart_kept (m : AicMemory R) :
    (discipline true env).Kept (fun _ => 0)
      (Net.exec (act env) (groupProgram env.cube.mode env.tasks parts n) m)
      (groupProgram env.cube.mode env.tasks parts n) (fun _ => 0) m := by
  obtain ⟨hruns, hrun⟩ :
      (net true).Runs (groupProgram env.cube.mode env.tasks parts n) (fun _ => 0) ∧ _ :=
    Net.runs_of_passes (groupProgram_plain hparts)
  refine ⟨hruns, hrun, ?_, (meets_groupProgram hfit hparts m trivial).1, rfl⟩
  intro F hF
  have hF : F ∈ cubeFences true env.cube.mode ++ slotFences true := hF
  rw [List.mem_append] at hF
  cases hF with
  | inl hF => exact (cubeFence_passes hF).safe
  | inr hF =>
      obtain ⟨flag, lane, rfl⟩ : ∃ flag lane, F = slotFence true flag lane := by
        simp only [slotFences, if_true, List.mem_flatMap, List.mem_cons, List.not_mem_nil,
          or_false] at hF
        obtain ⟨flag, -, rfl | rfl⟩ := hF
        · exact ⟨flag, 0, rfl⟩
        · exact ⟨flag, 1, rfl⟩
      exact (slotFence_passes hparts flag lane).safe

/-- The flag that answers a cross-core flag. -/
def CrossFlag.answer : CrossFlag → CrossFlag
  | .ready0 => .free0
  | .ready1 => .free1
  | .free0 => .ready0
  | .free1 => .ready1

theorem onSlot_answer {flag : CrossFlag} {k : Command} (h : k.onSlot flag = true) :
    k.onSlot flag.answer = true := by
  cases hs : k.slotId? with
  | none => simp [onSlot, hs] at h
  | some s =>
      by_cases h0 : s = 0 <;> cases flag <;>
        simp_all [onSlot, readyFlagForSlot, freeFlagForSlot, CrossFlag.answer]

/-- Whoever sends a flag waits for its answer, with its scalar unit. -/
theorem answer_parties (flag : CrossFlag) (lane : Fin 2) :
    (Flag.cross flag.answer lane).consumer = ((Flag.cross flag lane).producer.1, .s) ∧
      (Flag.cross flag lane).consumer = ((Flag.cross flag.answer lane).producer.1, .s) := by
  cases flag <;> exact ⟨rfl, rfl⟩

/-- **A cross-core counter never exceeds one**: its fence meets it empty at every set, and
the fence of the answering flag keeps a set behind the wait before it. -/
theorem stable_counter (env : SystemEnv R) (flag : CrossFlag) (lane : Fin 2) :
    (net true).Stable (act env) (fun L τ _ =>
      ((slotFence true flag lane).Safe (τ (.cross flag lane)) false L ∧
        (slotFence true flag.answer lane).Safe (τ (.cross flag.answer lane)) false L) ∧
      τ (.cross flag lane) ≤ 1) := by
  obtain ⟨hanswer, hconsumer⟩ := answer_parties flag lane
  refine Fence.stable_le_one (slotFence true flag lane) (slotFence true flag.answer lane) (act env)
    ?_ ?_ (fun k => sets_le_one true k _)
  · intro k hk
    have hproducer := producer_of_sets hk
    have hslot := onSlot_of_sets hk
    have hparty : k.party = (Flag.cross flag lane).producer.1 := congrArg Prod.fst hproducer
    have hpipe : k.pipe = (Flag.cross flag lane).producer.2 := congrArg Prod.snd hproducer
    constructor
    · simp [slotFence, fence, feeds, hparty, hpipe, hslot]
    · simp [slotFence, fence, awaits, hparty, hanswer, onSlot_answer hslot]
  · intro k hk
    have hwaiter := (consumer_of_waits hk).trans hconsumer
    have hparty : k.party = (Flag.cross flag.answer lane).producer.1 := congrArg Prod.fst hwaiter
    have hpipe : k.pipe = .s := congrArg Prod.snd hwaiter
    simp [slotFence, fence, feeds, hparty, hpipe, onSlot_answer (onSlot_of_waits hk)]

/-- The KKT copies of the program are those of the lanes' parts. -/
theorem copy_of_mem_groupProgram {mode : KMode} {tasks : ℕ → AicTask} {lane : Fin 2}
    {r g s c a b : ℕ}
    (h : .aiv lane r (.copyKkt g s c a b) ∈ groupProgram mode tasks parts n) :
    r < n ∧ .copyKkt g s c a b ∈ (parts lane).getD r [] := by
  simp only [groupProgram, roundBlock, aicBlock, laneEnd, List.mem_append, List.mem_flatMap,
    List.mem_range, List.mem_map, List.map_cons, List.map_nil, List.mem_cons, List.not_mem_nil,
    reduceCtorEq, and_false, exists_false, or_false, false_or, aiv.injEq] at h
  obtain ⟨r', hr', ⟨op, hop, rfl, rfl, rfl⟩ | ⟨op, hop, rfl, rfl, rfl⟩⟩ := h
  · exact ⟨hr', hop⟩
  · exact ⟨hr', hop⟩

end Interleavings

/-- A lane of a group: what it runs, for the rounds of the group. -/
structure LaneProgram {R : Type} (env : SystemEnv R) (n : ℕ) where
  tiling : ChunkScaledDotKktTilingData
  items : List LaneItem
  rounds : LaneRounds env.valid n 0 items

namespace LaneProgram

variable {R : Type} [Semiring R] {env : SystemEnv R} {n : ℕ} (lanes : Fin 2 → LaneProgram env n)

/-- The parts of both lanes. -/
def parts (lane : Fin 2) : List (List LaneOp) :=
  laneParts (lanes lane).tiling env.cube.groupId (lanes lane).items

omit [Semiring R] in
theorem partOk : ∀ r < n, ∀ lane, PartOk env.cube.groupId env.valid n r
    ((parts lanes lane).getD r []) :=
  fun r hr lane => ((lanes lane).rounds.partOk (lanes lane).tiling env.cube.groupId).2 r hr

/-- A lane's copy finds the tile of its round. -/
theorem copy_enabled {L : List Command} {s : State Party Command Flag (AicMemory R)}
    {τ : Flag → ℕ} {m : AicMemory R} (hkept : (discipline true env).Kept τ m L s.tokens s.mem)
    (hL : (net true).Serial L s.todo)
    (hsub : L.Sublist (groupProgram env.cube.mode env.tasks (parts lanes) n)) {lane : Fin 2}
    {r g slotId c a b : ℕ} {pre post : List Command}
    (h : (net true).Enabled s (.aiv lane) pre (.aiv lane r (.copyKkt g slotId c a b)) post) :
    slotId = r % 2 ∧ g = env.cube.groupId ∧ env.HoldsGram r slotId s.mem := by
  obtain ⟨P, Q, rfl, -, hgood, -⟩ := hkept.split hL h
  obtain ⟨hg, hgram⟩ := hgood rfl
  obtain ⟨hr, hop⟩ := copy_of_mem_groupProgram
    (hsub.subset (List.mem_append_right P List.mem_cons_self))
  exact ⟨((partOk lanes r hr lane).copy hop).2.1, hg, hgram⟩

/-- No copy of an earlier round from the slot is pending when the AIC commits to it. -/
theorem commit_enabled {L : List Command} {s : State Party Command Flag (AicMemory R)}
    {τ : Flag → ℕ} {m : AicMemory R} (hkept : (discipline true env).Kept τ m L s.tokens s.mem)
    (hL : (net true).Serial L s.todo)
    (hsub : L.Sublist (groupProgram env.cube.mode env.tasks (parts lanes) n))
    {r slotId : ℕ} {pre post : List Command}
    (h : (net true).Enabled s .aic pre (.aic r (.commitWorkspace slotId)) post) {lane : Fin 2}
    {r' g c a b : ℕ} (hcopy : .aiv lane r' (.copyKkt g slotId c a b) ∈ s.todo (.aiv lane)) :
    r ≤ r' := by
  obtain ⟨P, Q, rfl, -, -, hfree⟩ := hkept.split hL h
  have hmem : .aiv lane r' (.copyKkt g slotId c a b) ∈ P ++ .aic r (.commitWorkspace slotId) :: Q :=
    List.mem_of_mem_filter (hL (.aiv lane) ▸ hcopy)
  rw [List.mem_append, List.mem_cons] at hmem
  rcases hmem with hP | heq | hQ
  · exact absurd (Or.inr (hazard_of_reads (p := .slot slotId) (by simp [Command.reads])
      (by simp [Command.writes, AicOp.writes]))) (hfree _ hP)
  · cases heq
  · have horder := (groupProgram_rounds env.cube.mode env.tasks (parts lanes) n).sublist hsub
    exact (List.pairwise_cons.mp (List.pairwise_append.mp horder).2.1).1 _ hQ

end LaneProgram

/-- **The slot protocol.**  For every number of rounds, every choice of valid rounds and
every way the lanes run them, every reachable state is final or has a step, a lane copies
the tile of its round, the AIC does not commit to a slot that a lane has yet to copy an
earlier round from, no cross-core counter exceeds one, and a final state has no tokens. -/
theorem slot_protocol {R : Type} [Semiring R] (env : SystemEnv R) (n : ℕ)
    (hfit : ∀ r < n, env.valid r = true → (env.tasks r).Fits)
    (lanes : Fin 2 → LaneProgram env n) (m : AicMemory R)
    {s : State Party Command Flag (AicMemory R)}
    (hs : (net true).Reachable (act env) (groupStart env (LaneProgram.parts lanes) n m) s) :
    (¬ Net.Final s → ∃ s', (net true).Step (act env) s s') ∧
    (∀ lane r groupId slotId chunkLen rowStart rowCount pre post,
      (net true).Enabled s (.aiv lane) pre
        (.aiv lane r (.copyKkt groupId slotId chunkLen rowStart rowCount)) post →
      slotId = r % 2 ∧ groupId = env.cube.groupId ∧ env.HoldsGram r slotId s.mem) ∧
    (∀ r slotId pre post, (net true).Enabled s .aic pre (.aic r (.commitWorkspace slotId)) post →
      ∀ lane r' groupId chunkLen rowStart rowCount,
        .aiv lane r' (.copyKkt groupId slotId chunkLen rowStart rowCount) ∈ s.todo (.aiv lane) →
        r ≤ r') ∧
    (∀ flag lane, s.tokens (.cross flag lane) ≤ 1) ∧
    (Net.Final s → ∀ f, s.tokens f = 0) := by
  have hparts := LaneProgram.partOk lanes
  have hserial := groupStart_serial env (LaneProgram.parts lanes) n m
  obtain ⟨L, hL, hkept, hsub⟩ := Net.reachable_serial
    (((discipline true env).stable_kept (fun _ => 0) _).and (Net.stable_sublist _ _)) hserial
    ⟨groupStart_kept hfit hparts m, List.Sublist.refl _⟩ hs
  refine ⟨Net.exists_step hL hkept.runs, ?_, ?_, ?_, ?_⟩
  · intro lane r groupId slotId chunkLen rowStart rowCount pre post henabled
    exact LaneProgram.copy_enabled lanes hkept hL hsub henabled
  · intro r slotId pre post henabled lane r' groupId chunkLen rowStart rowCount hcopy
    exact LaneProgram.commit_enabled lanes hkept hL hsub henabled hcopy
  · intro flag lane
    obtain ⟨-, -, -, hle⟩ := Net.reachable_serial (stable_counter env flag lane) hserial
      ⟨⟨(slotFence_passes hparts flag lane).safe,
        (slotFence_passes hparts flag.answer lane).safe⟩, Nat.zero_le _⟩ hs
    exact hle
  · intro hfinal f
    rw [(hkept.final hL hfinal).1]

/-- Four rounds, the second one without a tile. -/
def fourRounds : SystemEnv ℤ where
  cube := ⟨.k256, 3, 0, fun a => a⟩
  tasks r := ⟨r ≠ 1, 0, 64⟩

/-- A lane's task in round `r` of four. -/
def roundOfFour (r : ℕ) (hasWork : Bool) : PipelineTask where
  slotId := r % 2
  kvHeadId := 0
  start := 0
  chunkLen := 64
  rowStart := 0
  rowCount := 64
  firstRepeat := 0
  repeatEnd := 3
  hasWork := hasWork
  willReuseSlot := r + 2 < 4

theorem roundOfFour_rounds {r : ℕ} {hasWork : Bool} {items : List LaneItem} (hr : r < 4)
    (hvalid : hasWork = true → fourRounds.valid r = true)
    (h : LaneRounds fourRounds.valid 4 (r + 1) items) :
    LaneRounds fourRounds.valid 4 r (.single (roundOfFour r hasWork) :: items) :=
  .single hr rfl rfl (fun hwork => ⟨hvalid hwork, (by decide : (0 : ℤ) < 3)⟩) h

/-- The first lane fuses the last two rounds, the second one has no work in the first. -/
def lanesOfFour (lane : Fin 2) : LaneProgram fourRounds 4 :=
  match lane with
  | 0 =>
      { tiling := sampleLaunch.tiling
        items := [.single (roundOfFour 0 true), .single (roundOfFour 1 false),
          .pair ⟨true, 0, 0, 64, 0, 1, false, false⟩]
        rounds := roundOfFour_rounds (by decide) (by decide) (roundOfFour_rounds (by decide)
          (by decide) (.pair (by decide) (by decide) (by decide) (by decide) .done)) }
  | 1 =>
      { tiling := sampleLaunch.tiling
        items := [.single (roundOfFour 0 false), .single (roundOfFour 1 false),
          .single (roundOfFour 2 true), .single (roundOfFour 3 true)]
        rounds := roundOfFour_rounds (by decide) (by decide) (roundOfFour_rounds (by decide)
          (by decide) (roundOfFour_rounds (by decide) (by decide) (roundOfFour_rounds (by decide)
            (by decide) .done))) }

theorem slot_protocol_four :
    ∃ s', (net true).Step (act fourRounds)
      (groupStart fourRounds (LaneProgram.parts lanesOfFour) 4 rowMemory) s' :=
  (slot_protocol fourRounds 4 (fun _ _ _ => (by decide : (0 : ℤ) < 64 ∧ (64 : ℤ) ≤ 64)) lanesOfFour
    rowMemory .refl).1 fun h => by
      have := h .aic
      simp [groupStart, aicProgram, initPersistentEvents] at this

end ChunkScaledDotKkt
