import ChunkScaledDotKkt.Cube.Gram
import ChunkScaledDotKkt.Vector.Stage
import Mathlib.Tactic.FinCases

/-!
# A MIX group as a token net

One AIC and two AIV lanes.  Each party's scalar unit issues its commands in program
order to in-order pipes that run concurrently.  An event set takes its turn in the
setter's pipe, an event wait blocks the waiter's pipe; a cross-core wait blocks the
scalar unit, so everything issued after it.

The net has one switch, `gated`: whether the AIC exchanges READY and FREE messages
with the lanes, or runs alone with FREE waits that only delay issue and are granted
at any time.

## Main definitions

* `Command`, `net` — the commands of a group and their tokens.
* `SystemEnv.act`, `SystemEnv.good` — what commands do and what they rely on.
* `discipline` — which commands conflict, and the flags that fence them.
-/

namespace ChunkScaledDotKkt

open Buffer CubeUnit PackedGramMmadCubeStage TokenNet

/-! ## Pipes and flags -/

inductive Pipe
  | s
  | mte1
  | mte2
  | m
  | v
  | fix
  deriving Repr, DecidableEq

/-- The pipe that sets an event. -/
def HardEvent.setter : HardEvent → Pipe
  | .mte1_mte2 => .mte1
  | .mte2_mte1 => .mte2
  | .mte1_m => .mte1
  | .m_mte1 => .m
  | .m_fix => .m
  | .fix_m => .fix
  | .v_mte2 => .v
  | .mte2_v => .mte2

/-- The pipe that waits for an event. -/
def HardEvent.waiter : HardEvent → Pipe
  | .mte1_mte2 => .mte2
  | .mte2_mte1 => .mte1
  | .mte1_m => .m
  | .m_mte1 => .mte1
  | .m_fix => .fix
  | .fix_m => .m
  | .v_mte2 => .mte2
  | .mte2_v => .v

def AicOp.pipe : AicOp → Pipe
  | .setFlag event _ => event.setter
  | .waitFlag event _ => event.waiter
  | .clearSharedL1 => .mte2
  | .copyOnePackedOperand => .mte2
  | .loadKPartToL0A _ _ => .mte1
  | .loadKPartToL0B _ _ _ => .mte1
  | .mmad _ _ _ => .m
  | .commitWorkspace _ => .fix
  | .waitFree _ => .s
  | .setReady _ => .fix
  | .pipeBarrierAll => .s

/-- The pipe of a lane's command.  Queue and output bookkeeping is the scalar unit's. -/
def LaneOp.pipe : LaneOp → Pipe
  | .setFree _ => .mte2
  | .setFlag event => event.setter
  | .waitFlag event => event.waiter
  | .pipeBarrierV => .v
  | .copyGateOrBeta _ _ _ _ _ => .mte2
  | .copyKkt _ _ _ _ _ => .mte2
  | .vector _ => .v
  | _ => .s

/-- The two AIVs beside an AIC. -/
abbrev lane0 : Fin 2 := 0
abbrev lane1 : Fin 2 := 1

inductive Party
  | aic
  | aiv (lane : Fin 2)
  deriving Repr, DecidableEq

/-- The four cross-core flags. -/
inductive CrossFlag
  | ready0
  | ready1
  | free0
  | free1
  deriving Repr, DecidableEq

def CrossFlag.isReady : CrossFlag → Bool
  | .ready0 => true
  | .ready1 => true
  | .free0 => false
  | .free1 => false

def readyFlagForSlot (slotId : ℕ) : CrossFlag := if slotId = 0 then .ready0 else .ready1

def freeFlagForSlot (slotId : ℕ) : CrossFlag := if slotId = 0 then .free0 else .free1

/-- An event of a party, or the counter that a cross-core flag has for a lane. -/
inductive Flag
  | event (party : Party) (event : HardEvent) (id : EventId)
  | cross (flag : CrossFlag) (lane : Fin 2)
  deriving Repr, DecidableEq

namespace Flag

/-- The party and the pipe that add tokens. -/
def producer : Flag → Party × Pipe
  | .event party hard _ => (party, hard.setter)
  | .cross flag lane => if flag.isReady then (.aic, .fix) else (.aiv lane, .mte2)

/-- The party and the pipe that take tokens. -/
def consumer : Flag → Party × Pipe
  | .event party hard _ => (party, hard.waiter)
  | .cross flag lane => if flag.isReady then (.aiv lane, .s) else (.aic, .s)

end Flag

/-- A command with the party that issues it and the round it belongs to. -/
inductive Command
  | aic (round : ℕ) (op : AicOp)
  | aiv (lane : Fin 2) (round : ℕ) (op : LaneOp)
  deriving Repr, DecidableEq

namespace Command

def party : Command → Party
  | .aic _ _ => .aic
  | .aiv lane _ _ => .aiv lane

def pipe : Command → Pipe
  | .aic _ op => op.pipe
  | .aiv _ _ op => op.pipe

def round : Command → ℕ
  | .aic r _ => r
  | .aiv _ r _ => r

def isBarrier : Command → Bool
  | .aic _ .pipeBarrierAll => true
  | _ => false

/-- A pending command holds later ones of its own pipe; the scalar unit's hold
everything, and a barrier waits for everything. -/
def before (e k : Command) : Bool := e.pipe == k.pipe || e.pipe == .s || k.isBarrier

/-- Tokens a command consumes. -/
def waits (gated : Bool) (k : Command) (f : Flag) : ℕ :=
  match k with
  | .aic _ (.waitFlag event id) => if f = .event .aic event id then 1 else 0
  | .aic _ (.waitFree slotId) =>
      if gated ∧ (f = .cross (freeFlagForSlot slotId) lane0 ∨
        f = .cross (freeFlagForSlot slotId) lane1) then 1 else 0
  | .aiv lane _ (.waitFlag event) => if f = .event (.aiv lane) event .id0 then 1 else 0
  | .aiv lane _ (.waitReady slotId) => if f = .cross (readyFlagForSlot slotId) lane then 1 else 0
  | _ => 0

/-- Tokens a command produces.  A READY message reaches both lanes. -/
def sets (gated : Bool) (k : Command) (f : Flag) : ℕ :=
  match k with
  | .aic _ (.setFlag event id) => if f = .event .aic event id then 1 else 0
  | .aic _ (.setReady slotId) =>
      if gated ∧ (f = .cross (readyFlagForSlot slotId) lane0 ∨
        f = .cross (readyFlagForSlot slotId) lane1) then 1 else 0
  | .aiv lane _ (.setFlag event) => if f = .event (.aiv lane) event .id0 then 1 else 0
  | .aiv lane _ (.setFree slotId) => if f = .cross (freeFlagForSlot slotId) lane then 1 else 0
  | _ => 0

/-! ## Who touches a flag -/

theorem cond_of_pos {p : Prop} [Decidable p] (h : 0 < if p then 1 else 0) : p := by
  by_contra hp
  rw [if_neg hp] at h
  exact lt_irrefl _ h

/-- Whoever takes tokens of a flag is its consumer. -/
theorem consumer_of_waits {gated : Bool} {k : Command} {f : Flag} (h : 0 < k.waits gated f) :
    (k.party, k.pipe) = f.consumer := by
  cases k with
  | aic r op =>
      cases op
      case waitFlag event id =>
        rw [cond_of_pos h]
        rfl
      case waitFree slotId =>
        have hf := (cond_of_pos h).2
        by_cases h0 : slotId = 0 <;> simp only [freeFlagForSlot, h0, if_true, if_false] at hf <;>
          cases hf <;> subst f <;> rfl
      all_goals exact absurd h (lt_irrefl 0)
  | aiv lane r op =>
      cases op
      case waitFlag event =>
        rw [cond_of_pos h]
        rfl
      case waitReady slotId =>
        have hf := cond_of_pos h
        by_cases h0 : slotId = 0 <;> simp only [readyFlagForSlot, h0, if_true, if_false] at hf <;>
          subst f <;> rfl
      all_goals exact absurd h (lt_irrefl 0)

/-- Whoever adds tokens to a flag is its producer. -/
theorem producer_of_sets {gated : Bool} {k : Command} {f : Flag} (h : 0 < k.sets gated f) :
    (k.party, k.pipe) = f.producer := by
  cases k with
  | aic r op =>
      cases op
      case setFlag event id =>
        rw [cond_of_pos h]
        rfl
      case setReady slotId =>
        have hf := (cond_of_pos h).2
        by_cases h0 : slotId = 0 <;> simp only [readyFlagForSlot, h0, if_true, if_false] at hf <;>
          cases hf <;> subst f <;> rfl
      all_goals exact absurd h (lt_irrefl 0)
  | aiv lane r op =>
      cases op
      case setFlag event =>
        rw [cond_of_pos h]
        rfl
      case setFree slotId =>
        have hf := cond_of_pos h
        by_cases h0 : slotId = 0 <;> simp only [freeFlagForSlot, h0, if_true, if_false] at hf <;>
          subst f <;> rfl
      all_goals exact absurd h (lt_irrefl 0)

/-- A command adds one token at a time. -/
theorem sets_le_one (gated : Bool) (k : Command) (f : Flag) : k.sets gated f ≤ 1 := by
  have hite : ∀ (p : Prop) [Decidable p], (if p then 1 else 0) ≤ 1 := by
    intro p _
    by_cases hp : p <;> simp [hp]
  cases k with
  | aic r op => cases op <;> first | exact hite _ | exact Nat.zero_le 1
  | aiv lane r op => cases op <;> first | exact hite _ | exact Nat.zero_le 1

theorem before_of_pipe {e k : Command} (h : e.pipe = k.pipe) : e.before k = true := by
  simp [before, h]

theorem before_of_scalar {e k : Command} (h : e.pipe = .s) : e.before k = true := by
  simp [before, h]

end Command

open Command in
/-- The token net of a MIX group. -/
def net (gated : Bool) : Net Party Command Flag where
  party := Command.party
  before := Command.before
  waits := Command.waits gated
  sets := Command.sets gated
  consumer e k f he hk := by
    have h := (consumer_of_waits he).trans (consumer_of_waits hk).symm
    exact ⟨congrArg Prod.fst h, before_of_pipe (congrArg Prod.snd h)⟩

/-! ## Fences of a flag -/

/-- The command is held before every setter of the flag. -/
def Command.feeds (f : Flag) (e : Command) : Bool :=
  e.party == f.producer.1 && (e.pipe == f.producer.2 || e.pipe == .s)

/-- The command is held by every waiter on the flag. -/
def Command.awaits (f : Flag) (k : Command) : Bool :=
  k.party == f.consumer.1 && (k.pipe == f.consumer.2 || f.consumer.2 == .s)

open Command in
/-- A flag as a fence between the commands of its producer and of its consumer. -/
def fence (gated : Bool) (f : Flag) (earlier later : Command → Bool) : Fence (net gated) where
  flag := f
  earlier e := e.feeds f && earlier e
  later k := k.awaits f && later k
  feeds e s he hs := by
    simp only [Command.feeds, Bool.and_eq_true, Bool.or_eq_true, beq_iff_eq] at he
    have h := producer_of_sets hs
    refine ⟨he.1.1.trans (congrArg Prod.fst h).symm, ?_⟩
    cases he.1.2 with
    | inl hp => exact before_of_pipe (hp.trans (congrArg Prod.snd h).symm)
    | inr hs => exact before_of_scalar hs
  admits w k hw hk := by
    simp only [Command.awaits, Bool.and_eq_true, Bool.or_eq_true, beq_iff_eq] at hk
    have h := consumer_of_waits hw
    refine ⟨(congrArg Prod.fst h).trans hk.1.1.symm, ?_⟩
    cases hk.1.2 with
    | inl hp => exact before_of_pipe ((congrArg Prod.snd h).trans hp.symm)
    | inr hs => exact before_of_scalar ((congrArg Prod.snd h).trans hs)

/-- Commands of other parties touch neither the flag nor its fences. -/
theorem quiet_of_party (gated : Bool) {f : Flag} {k : Command} (hp : k.party ≠ f.producer.1)
    (hc : k.party ≠ f.consumer.1) : k.waits gated f = 0 ∧ k.sets gated f = 0 := by
  constructor
  · by_contra hne
    exact hc (congrArg Prod.fst (Command.consumer_of_waits (Nat.pos_of_ne_zero hne)))
  · by_contra hne
    exact hp (congrArg Prod.fst (Command.producer_of_sets (Nat.pos_of_ne_zero hne)))

theorem fence_inert {gated : Bool} {f : Flag} {earlier later : Command → Bool} {k : Command}
    (hp : k.party ≠ f.producer.1) (hc : k.party ≠ f.consumer.1) :
    (fence gated f earlier later).Inert k := by
  obtain ⟨hwaits, hsets⟩ := quiet_of_party gated hp hc
  refine ⟨hwaits, hsets, ?_, ?_⟩
  · simp [fence, Command.feeds, hp]
  · simp [fence, Command.awaits, hc]

/-- An event belongs to one party. -/
theorem event_inert {gated : Bool} {party : Party} {event : HardEvent} {id : EventId}
    {k : Command} (h : k.party ≠ party) :
    (Fence.plain (net gated) (.event party event id)).Inert k := by
  obtain ⟨hwaits, hsets⟩ := quiet_of_party (f := .event party event id) gated h h
  exact ⟨hwaits, hsets, rfl, rfl⟩

/-! ## Hazards -/

/-- The places through which commands of different pipes meet. -/
inductive Place
  | l1
  | l0a (stage : ℕ)
  | l0b (stage : ℕ)
  | l0c
  | slot (slotId : ℕ)
  deriving Repr, DecidableEq

def AicOp.reads : AicOp → List Place
  | .loadKPartToL0A _ _ => [.l1]
  | .loadKPartToL0B _ _ _ => [.l1]
  | .mmad stage _ _ => [.l0a stage, .l0b stage, .l0c]
  | .commitWorkspace _ => [.l0c]
  | _ => []

def AicOp.writes : AicOp → List Place
  | .clearSharedL1 => [.l1]
  | .copyOnePackedOperand => [.l1]
  | .loadKPartToL0A stage _ => [.l0a stage]
  | .loadKPartToL0B stage _ _ => [.l0b stage]
  | .mmad _ _ _ => [.l0c]
  | .commitWorkspace slotId => [.slot slotId]
  | _ => []

namespace Command

/-- The lanes read the slots; an AIC that runs alone has no readers. -/
def reads (gated : Bool) : Command → List Place
  | .aic _ op => op.reads
  | .aiv _ _ (.copyKkt _ slotId _ _ _) => if gated then [.slot slotId] else []
  | .aiv _ _ _ => []

def writes : Command → List Place
  | .aic _ op => op.writes
  | .aiv _ _ _ => []

/-- One of the commands writes what the other touches. -/
def Hazard (gated : Bool) (e k : Command) : Prop :=
  ¬ (e.writes.Disjoint (k.reads gated ++ k.writes) ∧ (e.reads gated).Disjoint k.writes)

/-- A command that writes what an earlier one reads. -/
theorem hazard_of_reads {gated : Bool} {e k : Command} {p : Place} (he : p ∈ e.reads gated)
    (hk : p ∈ k.writes) : e.Hazard gated k := fun h => h.2 he hk

end Command

/-! ## Classes of commands -/

def AicOp.isCopy : AicOp → Bool
  | .clearSharedL1 => true
  | .copyOnePackedOperand => true
  | _ => false

def AicOp.isLoad : AicOp → Bool
  | .loadKPartToL0A _ _ => true
  | .loadKPartToL0B _ _ _ => true
  | _ => false

def AicOp.isMmad : AicOp → Bool
  | .mmad _ _ _ => true
  | _ => false

def AicOp.isCommit : AicOp → Bool
  | .commitWorkspace _ => true
  | _ => false

open PackedGramMmadCubeStageK128 in
/-- The K = 128 stage gives each half of L0A and of L0B a token. -/
def AicOp.touchesL0K128 (id : EventId) : AicOp → Bool
  | .loadKPartToL0A stage _ => aL0Event stage == id
  | .loadKPartToL0B stage _ _ => bL0Event stage == id
  | .mmad stage _ _ => aL0Event stage == id || bL0Event stage == id
  | _ => false

/-- The K = 256 stage tells its four L0 stages apart by address only. -/
def AicOp.touchesL0K256 (stage : ℕ) : AicOp → Bool
  | .loadKPartToL0A stage' _ => min stage' 3 == stage
  | .loadKPartToL0B stage' _ _ => min stage' 3 == stage
  | .mmad stage' _ _ => min stage' 3 == stage
  | _ => false

namespace Command

def onAic (c : AicOp → Bool) : Command → Bool
  | .aic _ op => c op
  | .aiv _ _ _ => false

/-- The slot that a command waits for, uses or hands over. -/
def slotId? : Command → Option ℕ
  | .aic _ (.waitFree slotId) => some slotId
  | .aic _ (.commitWorkspace slotId) => some slotId
  | .aic _ (.setReady slotId) => some slotId
  | .aiv _ _ (.waitReady slotId) => some slotId
  | .aiv _ _ (.copyKkt _ slotId _ _ _) => some slotId
  | .aiv _ _ (.setFree slotId) => some slotId
  | _ => none

/-- The command belongs to the slot of a cross-core flag. -/
def onSlot (flag : CrossFlag) (k : Command) : Bool :=
  match k.slotId? with
  | none => false
  | some slotId => readyFlagForSlot slotId == flag || freeFlagForSlot slotId == flag

end Command

/-! ## The fences -/

section Fences

open Command

variable (gated : Bool)

/-- An AIC event as a fence. -/
def cubeFence (event : HardEvent) (id : EventId) (earlier later : AicOp → Bool) :
    Fence (net gated) :=
  fence gated (.event .aic event id) (onAic earlier) (onAic later)

/-- The tokens that guard the stages of L0A and L0B against overwriting. -/
def l0Fences : KMode → List (Fence (net gated))
  | .k128 => [.id0, .id1, .id2, .id3].map fun id =>
      cubeFence gated .m_mte1 id (fun op => op.isMmad && op.touchesL0K128 id)
        (fun op => op.isLoad && op.touchesL0K128 id)
  | .k256 => [0, 1, 2, 3].map fun stage =>
      cubeFence gated .m_mte1 .id0 (fun op => op.isMmad && op.touchesL0K256 stage)
        (fun op => op.isLoad && op.touchesL0K256 stage)

/-- The events that guard L1, the loads of L0 and L0C. -/
def cubeFences (mode : KMode) : List (Fence (net gated)) :=
  [cubeFence gated .mte1_mte2 .id0 AicOp.isLoad AicOp.isCopy,
   cubeFence gated .mte2_mte1 .id0 AicOp.isCopy AicOp.isLoad,
   cubeFence gated .mte1_m .id0 AicOp.isLoad AicOp.isMmad,
   cubeFence gated .m_fix .id0 AicOp.isMmad AicOp.isCommit,
   cubeFence gated .fix_m .id0 AicOp.isCommit AicOp.isMmad] ++ l0Fences gated mode

/-- A cross-core flag of a lane as a fence around its slot. -/
def slotFence (flag : CrossFlag) (lane : Fin 2) : Fence (net gated) :=
  fence gated (.cross flag lane) (onSlot flag) (onSlot flag)

def slotFences : List (Fence (net gated)) :=
  if gated then
    [.ready0, .ready1, .free0, .free1].flatMap fun flag =>
      [slotFence gated flag 0, slotFence gated flag 1]
  else []

/-- The ways in which two commands of the AIC can meet. -/
theorem aic_hazard {r r' : ℕ} {op op' : AicOp}
    (h : (Command.aic r op).Hazard gated (.aic r' op')) : op.pipe = op'.pipe ∨
      (op.isLoad ∧ op'.isCopy) ∨ (op.isCopy ∧ op'.isLoad) ∨ (op.isLoad ∧ op'.isMmad) ∨
      (op.isMmad ∧ op'.isCommit) ∨ (op.isCommit ∧ op'.isMmad) ∨
      (op.isMmad ∧ op'.isLoad ∧ (∀ id, op'.touchesL0K128 id → op.touchesL0K128 id) ∧
        ∀ stage, op'.touchesL0K256 stage → op.touchesL0K256 stage) := by
  cases op <;> cases op' <;>
    simp_all [Hazard, Command.reads, Command.writes, AicOp.reads, AicOp.writes, AicOp.isLoad,
      AicOp.isCopy, AicOp.isMmad, AicOp.isCommit, AicOp.pipe, AicOp.touchesL0K128,
      AicOp.touchesL0K256]

variable {gated}

/-- The AIC and a lane meet only in a slot. -/
theorem slot_hazard {r r' : ℕ} {op : AicOp} {lane : Fin 2} {op' : LaneOp}
    (h : (Command.aic r op).Hazard gated (.aiv lane r' op') ∨
      (Command.aiv lane r' op').Hazard gated (.aic r op)) :
    gated = true ∧ ∃ slotId groupId chunkLen rowStart rowCount, op = .commitWorkspace slotId ∧
      op' = .copyKkt groupId slotId chunkLen rowStart rowCount := by
  cases op' <;> cases op <;>
    simp_all [Hazard, Command.reads, Command.writes, AicOp.reads, AicOp.writes]

theorem mem_reads_of_isLoad {op : AicOp} (h : op.isLoad = true) : .l1 ∈ op.reads := by
  cases op <;> first | exact List.mem_singleton_self _ | cases h

theorem mem_writes_of_isCopy {op : AicOp} (h : op.isCopy = true) : .l1 ∈ op.writes := by
  cases op <;> first | exact List.mem_singleton_self _ | cases h

theorem mem_writes_of_isMmad {op : AicOp} (h : op.isMmad = true) : .l0c ∈ op.writes := by
  cases op <;> first | exact List.mem_singleton_self _ | cases h

theorem mem_reads_of_isCommit {op : AicOp} (h : op.isCommit = true) : .l0c ∈ op.reads := by
  cases op <;> first | exact List.mem_singleton_self _ | cases h

theorem pipe_of_isLoad {op : AicOp} (h : op.isLoad = true) : op.pipe = .mte1 := by
  cases op <;> first | rfl | cases h

theorem pipe_of_isCopy {op : AicOp} (h : op.isCopy = true) : op.pipe = .mte2 := by
  cases op <;> first | rfl | cases h

theorem pipe_of_isMmad {op : AicOp} (h : op.isMmad = true) : op.pipe = .m := by
  cases op <;> first | rfl | cases h

theorem pipe_of_isCommit {op : AicOp} (h : op.isCommit = true) : op.pipe = .fix := by
  cases op <;> first | rfl | cases h

/-- A fence on an AIC event orders its classes when they run in the event's pipes. -/
theorem cubeFence_orders {event : HardEvent} {id : EventId} {earlier later : AicOp → Bool}
    {r r' : ℕ} {op op' : AicOp} (hp : op.pipe = event.setter) (hp' : op'.pipe = event.waiter)
    (h : earlier op = true) (h' : later op' = true) :
    (cubeFence gated event id earlier later).earlier (.aic r op) = true ∧
      (cubeFence gated event id earlier later).later (.aic r' op') = true := by
  constructor
  · simp [cubeFence, fence, feeds, onAic, Command.party, Command.pipe, Flag.producer, hp, h]
  · simp [cubeFence, fence, awaits, onAic, Command.party, Command.pipe, Flag.consumer, hp', h']

open PackedGramMmadCubeStageK128 in
/-- Every load belongs to a token of the K = 128 stage and to a stage of K = 256. -/
theorem load_class {op : AicOp} (h : op.isLoad = true) :
    (∃ id, op.touchesL0K128 id = true) ∧ ∃ stage < 4, op.touchesL0K256 stage = true := by
  cases op
  case loadKPartToL0A stage kPart =>
    exact ⟨⟨aL0Event stage, beq_self_eq_true _⟩, min stage 3, by omega, beq_self_eq_true _⟩
  case loadKPartToL0B stage kPart block =>
    exact ⟨⟨bL0Event stage, beq_self_eq_true _⟩, min stage 3, by omega, beq_self_eq_true _⟩
  all_goals cases h

/-- A stage of L0 is not loaded again before its product. -/
theorem l0_covered (mode : KMode) {r r' : ℕ} {op op' : AicOp} (hop : op.isMmad = true)
    (hop' : op'.isLoad = true) (h128 : ∀ id, op'.touchesL0K128 id → op.touchesL0K128 id)
    (h256 : ∀ stage, op'.touchesL0K256 stage → op.touchesL0K256 stage) :
    ∃ F ∈ l0Fences gated mode, F.earlier (.aic r op) = true ∧ F.later (.aic r' op') = true := by
  have hp := pipe_of_isMmad hop
  have hp' := pipe_of_isLoad hop'
  cases mode with
  | k128 =>
      obtain ⟨id, hid⟩ := (load_class hop').1
      refine ⟨_, List.mem_map.mpr ⟨id, by cases id <;> simp, rfl⟩, ?_⟩
      exact cubeFence_orders hp hp' (by simp [hop, h128 id hid]) (by simp [hop', hid])
  | k256 =>
      obtain ⟨stage, hlt, hstage⟩ := (load_class hop').2
      refine ⟨_, List.mem_map.mpr ⟨stage, by simp; omega, rfl⟩, ?_⟩
      exact cubeFence_orders hp hp' (by simp [hop, h256 stage hstage]) (by simp [hop', hstage])

/-- The flags of a slot are fences for it. -/
theorem slotFence_mem (slotId : ℕ) (lane : Fin 2) :
    slotFence true (readyFlagForSlot slotId) lane ∈ slotFences true ∧
      slotFence true (freeFlagForSlot slotId) lane ∈ slotFences true := by
  by_cases h0 : slotId = 0 <;> fin_cases lane <;>
    simp [slotFences, readyFlagForSlot, freeFlagForSlot, h0]

theorem onSlot_of_waits {k : Command} {flag : CrossFlag} {lane : Fin 2}
    (h : 0 < k.waits gated (.cross flag lane)) : k.onSlot flag = true := by
  cases k with
  | aic r op =>
      cases op
      case waitFree slotId =>
        cases (cond_of_pos h).2 with
        | inl hf => simp [onSlot, slotId?, (Flag.cross.inj hf).1]
        | inr hf => simp [onSlot, slotId?, (Flag.cross.inj hf).1]
      case waitFlag event id =>
        have hf : Flag.cross flag lane = .event .aic event id := cond_of_pos h
        cases hf
      all_goals exact absurd h (lt_irrefl 0)
  | aiv lane' r op =>
      cases op
      case waitReady slotId => simp [onSlot, slotId?, (Flag.cross.inj (cond_of_pos h)).1]
      case waitFlag event =>
        have hf : Flag.cross flag lane = .event (.aiv lane') event .id0 := cond_of_pos h
        cases hf
      all_goals exact absurd h (lt_irrefl 0)

theorem onSlot_of_sets {k : Command} {flag : CrossFlag} {lane : Fin 2}
    (h : 0 < k.sets gated (.cross flag lane)) : k.onSlot flag = true := by
  cases k with
  | aic r op =>
      cases op
      case setReady slotId =>
        cases (cond_of_pos h).2 with
        | inl hf => simp [onSlot, slotId?, (Flag.cross.inj hf).1]
        | inr hf => simp [onSlot, slotId?, (Flag.cross.inj hf).1]
      case setFlag event id =>
        have hf : Flag.cross flag lane = .event .aic event id := cond_of_pos h
        cases hf
      all_goals exact absurd h (lt_irrefl 0)
  | aiv lane' r op =>
      cases op
      case setFree slotId => simp [onSlot, slotId?, (Flag.cross.inj (cond_of_pos h)).1]
      case setFlag event =>
        have hf : Flag.cross flag lane = .event (.aiv lane') event .id0 := cond_of_pos h
        cases hf
      all_goals exact absurd h (lt_irrefl 0)

theorem isReady_readyFlagForSlot (slotId : ℕ) : (readyFlagForSlot slotId).isReady = true := by
  by_cases h0 : slotId = 0 <;> simp [readyFlagForSlot, h0, CrossFlag.isReady]

theorem isReady_freeFlagForSlot (slotId : ℕ) : (freeFlagForSlot slotId).isReady = false := by
  by_cases h0 : slotId = 0 <;> simp [freeFlagForSlot, h0, CrossFlag.isReady]

/-- The AIC's own hazards are ordered by its pipes and events. -/
theorem aic_covered (mode : KMode) {r r' : ℕ} {op op' : AicOp}
    (h : (Command.aic r op).Hazard gated (.aic r' op')) :
    (net gated).Holds (.aic r op) (.aic r' op') ∨ ∃ F ∈ cubeFences gated mode,
      F.earlier (.aic r op) = true ∧ F.later (.aic r' op') = true := by
  rcases aic_hazard gated h with
    hpipe | ⟨he, hl⟩ | ⟨he, hl⟩ | ⟨he, hl⟩ | ⟨he, hl⟩ | ⟨he, hl⟩ | ⟨he, hl, h128, h256⟩
  · exact Or.inl ⟨rfl, before_of_pipe hpipe⟩
  · have hmem : cubeFence gated .mte1_mte2 .id0 AicOp.isLoad AicOp.isCopy ∈
        cubeFences gated mode := by
      simp [cubeFences]
    exact Or.inr ⟨_, hmem, cubeFence_orders (pipe_of_isLoad he) (pipe_of_isCopy hl) he hl⟩
  · have hmem : cubeFence gated .mte2_mte1 .id0 AicOp.isCopy AicOp.isLoad ∈
        cubeFences gated mode := by
      simp [cubeFences]
    exact Or.inr ⟨_, hmem, cubeFence_orders (pipe_of_isCopy he) (pipe_of_isLoad hl) he hl⟩
  · have hmem : cubeFence gated .mte1_m .id0 AicOp.isLoad AicOp.isMmad ∈
        cubeFences gated mode := by
      simp [cubeFences]
    exact Or.inr ⟨_, hmem, cubeFence_orders (pipe_of_isLoad he) (pipe_of_isMmad hl) he hl⟩
  · have hmem : cubeFence gated .m_fix .id0 AicOp.isMmad AicOp.isCommit ∈
        cubeFences gated mode := by
      simp [cubeFences]
    exact Or.inr ⟨_, hmem, cubeFence_orders (pipe_of_isMmad he) (pipe_of_isCommit hl) he hl⟩
  · have hmem : cubeFence gated .fix_m .id0 AicOp.isCommit AicOp.isMmad ∈
        cubeFences gated mode := by
      simp [cubeFences]
    exact Or.inr ⟨_, hmem, cubeFence_orders (pipe_of_isCommit he) (pipe_of_isMmad hl) he hl⟩
  · obtain ⟨F, hF, horders⟩ : ∃ F ∈ l0Fences gated mode, _ := l0_covered mode he hl h128 h256
    exact Or.inr ⟨F, List.mem_append_right _ hF, horders⟩

/-- **Every hazard is ordered**, by a pipe or by a fence. -/
theorem hazard_covered (mode : KMode) {e k : Command} (h : e.Hazard gated k) :
    (net gated).Holds e k ∨ ∃ F ∈ cubeFences gated mode ++ slotFences gated,
      F.earlier e = true ∧ F.later k = true := by
  cases e with
  | aic r op =>
      cases k with
      | aic r' op' =>
          refine (aic_covered mode h).imp_right ?_
          exact fun ⟨F, hF, horders⟩ => ⟨F, List.mem_append_left _ hF, horders⟩
      | aiv lane r' op' =>
          -- the commit is before the copy of the lane: READY
          obtain ⟨rfl, slotId, groupId, chunkLen, rowStart, rowCount, rfl, rfl⟩ :=
            slot_hazard (.inl h)
          refine Or.inr ⟨_, List.mem_append_right _ (slotFence_mem slotId lane).1, ?_⟩
          simp [slotFence, fence, feeds, awaits, onSlot, slotId?, Flag.producer, Flag.consumer,
            isReady_readyFlagForSlot, Command.party, Command.pipe, AicOp.pipe]
  | aiv lane r op =>
      cases k with
      | aic r' op' =>
          -- the copy of the lane is before the commit: FREE
          obtain ⟨rfl, slotId, groupId, chunkLen, rowStart, rowCount, rfl, rfl⟩ :=
            slot_hazard (.inr h)
          refine Or.inr ⟨_, List.mem_append_right _ (slotFence_mem slotId lane).2, ?_⟩
          simp [slotFence, fence, feeds, awaits, onSlot, slotId?, Flag.producer, Flag.consumer,
            isReady_freeFlagForSlot, Command.party, Command.pipe, LaneOp.pipe]
      | aiv lane' r' op' => simp [Hazard, Command.writes] at h

end Fences

end ChunkScaledDotKkt
