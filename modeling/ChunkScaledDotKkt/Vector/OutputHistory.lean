import ChunkScaledDotKkt.Vector.OutputStream
import ChunkScaledDotKkt.Vector.Protocol

/-!
# The history of the output stream

Every operation of the output stream leaves an event.  What the stream must not do,
losing a batch, launching it twice or with another batch's record, freeing a buffer
whose copy has not been waited for, is read off the list of events.

## Main results

* `Between.batch`, `Between.epilogue` — one batch, and the end of the run.
* `output_stream` — any program of a lane.
-/

namespace ChunkScaledDotKkt

namespace VectorStage

namespace OutputEvent

def isLaunch : OutputEvent → Bool
  | .launch _ _ _ => true
  | _ => false

def isWait : OutputEvent → Bool
  | .waitFlag _ _ => true
  | _ => false

/-- A record that was queued (`false`) or launched (`true`), with its slot. -/
def record? : OutputEvent → Option (Bool × ℕ × OutputRecord)
  | .queueDelayed slotId output => some (false, slotId, output)
  | .launch slotId _ output => some (true, slotId, output)
  | _ => none

def allocated? : OutputEvent → Option Bool
  | .allocTensor buffer => some buffer
  | _ => none

def enqueued? : OutputEvent → Option Bool
  | .enQue buffer => some buffer
  | _ => none

def launched? : OutputEvent → Option Bool
  | .launch _ buffer _ => some buffer
  | _ => none

/-- Whether the event uses the physical slot. -/
def onSlot (k : ℕ) : OutputEvent → Bool
  | .launch slotId _ _ => slotId == k
  | .setFlag slotId _ => slotId == k
  | .waitFlag slotId _ => slotId == k
  | .freeTensor slotId _ => slotId == k
  | _ => false

/-- Whether the event uses the buffer of the physical slot or a flag of the event id. -/
def onEvent (k event : ℕ) : OutputEvent → Bool
  | .launch slotId _ _ => slotId == k
  | .setFlag _ id => id == event
  | .waitFlag _ id => id == event
  | .freeTensor slotId _ => slotId == k
  | _ => false

/-- The slot and the event id of a flag. -/
def flag? : OutputEvent → Option (ℕ × ℕ)
  | .setFlag slotId event => some (slotId, event)
  | .waitFlag slotId event => some (slotId, event)
  | _ => none

end OutputEvent

/-! ## Properties of a history -/

/-- The events of a slot with its event id: launch, set, wait and free of one buffer after
the other; the buffer still in flight. -/
inductive Lifecycle (slotId event : ℕ) : List OutputEvent → Option Bool → Prop
  | start : Lifecycle slotId event [] none
  | launch {log : List OutputEvent} (buffer : Bool) (output : OutputRecord) :
      Lifecycle slotId event log none →
      Lifecycle slotId event (log ++ [.launch slotId buffer output, .setFlag slotId event])
        (some buffer)
  | retire {log : List OutputEvent} {buffer : Bool} :
      Lifecycle slotId event log (some buffer) →
      Lifecycle slotId event (log ++ [.waitFlag slotId event, .freeTensor slotId buffer]) none

/-- Every flag is the event id of one of the two slots. -/
def OwnFlags (env : OutputEnv) (log : List OutputEvent) : Prop :=
  ∀ e ∈ log, ∀ slotId event, e.flag? = some (slotId, event) →
    slotId < 2 ∧ event = env.outputSlotEvent slotId

theorem OwnFlags.append {env : OutputEnv} {log tail : List OutputEvent} (h : OwnFlags env log)
    (htail : OwnFlags env tail) : OwnFlags env (log ++ tail) :=
  List.forall_mem_append.mpr ⟨h, htail⟩

theorem OutputEnv.outputSlotEvent_injective {env : OutputEnv}
    (hne : env.outputSlotEvent0 ≠ env.outputSlotEvent1) {k k' : ℕ} (hk : k < 2) (hk' : k' < 2)
    (h : env.outputSlotEvent k = env.outputSlotEvent k') : k = k' := by
  obtain rfl | rfl : k = 0 ∨ k = 1 := by omega
  all_goals obtain rfl | rfl : k' = 0 ∨ k' = 1 := by omega
  · rfl
  · exact absurd h hne
  · exact absurd h.symm hne
  · rfl

/-- With two event ids the flags of an id are those of its slot. -/
theorem OwnFlags.filter_onEvent {env : OutputEnv} {log : List OutputEvent}
    (h : OwnFlags env log) (hne : env.outputSlotEvent0 ≠ env.outputSlotEvent1) {k : ℕ}
    (hk : k < 2) :
    log.filter (OutputEvent.onEvent k (env.outputSlotEvent k)) =
      log.filter (OutputEvent.onSlot k) := by
  have hflag : ∀ {slotId event : ℕ}, slotId < 2 ∧ event = env.outputSlotEvent slotId →
      (event == env.outputSlotEvent k) = (slotId == k) := by
    rintro slotId event ⟨hlt, rfl⟩
    rw [beq_eq_beq]
    exact ⟨OutputEnv.outputSlotEvent_injective hne hlt hk, congrArg env.outputSlotEvent⟩
  refine List.filter_congr fun e he => ?_
  cases e with
  | setFlag slotId event => exact hflag (h _ he slotId event rfl)
  | waitFlag slotId event => exact hflag (h _ he slotId event rfl)
  | _ => rfl

/-- At no time are more than `n` launched copies waited for. -/
def Unwaited (n : ℕ) (log : List OutputEvent) : Prop :=
  ∀ pre, pre <+: log → pre.countP OutputEvent.isLaunch ≤ pre.countP OutputEvent.isWait + n

theorem Unwaited.concat {n : ℕ} {log : List OutputEvent} {e : OutputEvent} (h : Unwaited n log)
    (hcount : (log ++ [e]).countP OutputEvent.isLaunch ≤
      (log ++ [e]).countP OutputEvent.isWait + n) : Unwaited n (log ++ [e]) := by
  intro pre hpre
  rcases List.prefix_concat_iff.mp hpre with rfl | hpre
  · exact hcount
  · exact h pre hpre

theorem Unwaited.mono {n n' : ℕ} {log : List OutputEvent} (h : Unwaited n log) (hle : n ≤ n') :
    Unwaited n' log := by
  intro pre hpre
  have := h pre hpre
  omega

/-- Each record is queued and then launched, in order, from alternating slots. -/
def launchedRecords (records : List OutputRecord) : List (Bool × ℕ × OutputRecord) :=
  records.zipIdx.flatMap fun (output, i) => [(false, i % 2, output), (true, i % 2, output)]

/-- The record that is queued and not launched. -/
def readyRecord (n : ℕ) : Option OutputRecord → List (Bool × ℕ × OutputRecord)
  | none => []
  | some output => [(false, n % 2, output)]

theorem launchedRecords_concat (records : List OutputRecord) (output : OutputRecord) :
    launchedRecords (records ++ [output]) =
      launchedRecords records ++ [(false, records.length % 2, output),
        (true, records.length % 2, output)] := by
  simp [launchedRecords, List.zipIdx_append]

/-- The buffers in flight. -/
def Ownership.inFlight (o : Ownership) : ℕ := o.flying0.toList.length + o.flying1.toList.length

/-- The history of a stream that has launched the records `done`, has `ready` queued and
stands at the given ownership; at most `n` copies were ever unwaited. -/
structure History (env : OutputEnv) (n : ℕ) (done : List OutputRecord)
    (ready : Option OutputRecord) (o : Ownership) (log : List OutputEvent) : Prop where
  records : log.filterMap OutputEvent.record? =
    launchedRecords done ++ readyRecord done.length ready
  allocs : log.filterMap OutputEvent.allocated? =
    log.filterMap OutputEvent.enqueued? ++ o.own.toList
  enQues : log.filterMap OutputEvent.enqueued? =
    log.filterMap OutputEvent.launched? ++ o.enqueued.toList
  lifecycle : ∀ k < 2,
    Lifecycle k (env.outputSlotEvent k) (log.filter (OutputEvent.onSlot k)) (o.flying k)
  flags : OwnFlags env log
  unwaited : Unwaited n log
  balance : log.countP OutputEvent.isLaunch = log.countP OutputEvent.isWait + o.inFlight

namespace Ownership

variable {o : Ownership} {slotId : ℕ} {b : Bool}

theorem flying_setFlying {k : ℕ} (hslot : slotId < 2) (hk : k < 2) (x : Option Bool) :
    (o.setFlying slotId x).flying k = if k = slotId then x else o.flying k := by
  obtain rfl | rfl : slotId = 0 ∨ slotId = 1 := by omega
  all_goals obtain rfl | rfl : k = 0 ∨ k = 1 := by omega
  all_goals rfl

@[simp] theorem setFlying_own (x : Option Bool) : (o.setFlying slotId x).own = o.own := by
  unfold setFlying
  split <;> rfl

@[simp] theorem setFlying_enqueued (x : Option Bool) :
    (o.setFlying slotId x).enqueued = o.enqueued := by
  unfold setFlying
  split <;> rfl

@[simp] theorem flying_mk (e w : Option Bool) :
    (⟨o.flying0, o.flying1, e, w⟩ : Ownership).flying slotId = o.flying slotId := rfl

@[simp] theorem inFlight_mk (e w : Option Bool) :
    (⟨o.flying0, o.flying1, e, w⟩ : Ownership).inFlight = o.inFlight := rfl

theorem inFlight_retire (hf : o.flying slotId = some b) :
    (o.setFlying slotId none).inFlight + 1 = o.inFlight := by
  by_cases h : slotId = 0 <;> simp [flying, h] at hf <;>
    simp [inFlight, setFlying, h, hf, Nat.add_comm]

theorem inFlight_launch (hf : o.flying slotId = none) (he : o.enqueued = some b) :
    (o.launch slotId).inFlight = o.inFlight + 1 := by
  by_cases h : slotId = 0 <;> simp [flying, h] at hf <;>
    simp [inFlight, launch, setFlying, h, hf, he, Nat.add_comm]

end Ownership

namespace History

variable {env : OutputEnv} {n : ℕ} {done : List OutputRecord} {ready : Option OutputRecord}
  {o : Ownership} {log : List OutputEvent} {slotId : ℕ} {b : Bool}

theorem init : History env 1 [] none .empty [] where
  records := rfl
  allocs := rfl
  enQues := rfl
  lifecycle k hk := by
    obtain rfl | rfl : k = 0 ∨ k = 1 := by omega
    all_goals exact .start
  flags e he := by cases he
  unwaited pre hpre := by
    rw [List.prefix_nil.mp hpre]
    exact Nat.zero_le _
  balance := rfl

theorem retire (h : History env n done ready o log) (hslot : slotId < 2)
    (hf : o.flying slotId = some b) :
    History env n done ready (o.setFlying slotId none)
      (log ++ [.waitFlag slotId (env.outputSlotEvent slotId), .freeTensor slotId b]) where
  records := by simpa [List.filterMap_cons, OutputEvent.record?] using h.records
  allocs := by
    simpa [List.filterMap_cons, OutputEvent.allocated?, OutputEvent.enqueued?] using h.allocs
  enQues := by
    simpa [List.filterMap_cons, OutputEvent.launched?, OutputEvent.enqueued?] using h.enQues
  lifecycle k hk := by
    have hlife := h.lifecycle k hk
    rw [Ownership.flying_setFlying hslot hk, List.filter_append]
    by_cases heq : k = slotId
    · subst heq
      rw [hf] at hlife
      simpa [OutputEvent.onSlot] using hlife.retire
    · have hne : ¬ slotId = k := fun h => heq h.symm
      simpa [OutputEvent.onSlot, heq, hne] using hlife
  flags := h.flags.append (by simpa [OwnFlags, OutputEvent.flag?] using hslot)
  unwaited := by
    have hle := h.unwaited log (List.prefix_refl log)
    have hsplit : log ++ [.waitFlag slotId (env.outputSlotEvent slotId), .freeTensor slotId b] =
      log ++ [.waitFlag slotId (env.outputSlotEvent slotId)] ++ [.freeTensor slotId b] := by simp
    rw [hsplit]
    refine (h.unwaited.concat ?_).concat ?_ <;>
      simp [List.countP_cons, OutputEvent.isLaunch, OutputEvent.isWait] <;> omega
  balance := by
    have hcount := Ownership.inFlight_retire hf
    have hbal := h.balance
    simp [List.countP_cons, OutputEvent.isLaunch, OutputEvent.isWait]
    omega

theorem alloc (h : History env n done ready o log) (hown : o.own = none) :
    History env n done ready { o with own := some b } (log ++ [.allocTensor b]) where
  records := by simpa [List.filterMap_cons, OutputEvent.record?] using h.records
  allocs := by
    simpa [List.filterMap_cons, OutputEvent.allocated?, OutputEvent.enqueued?, hown] using h.allocs
  enQues := by
    simpa [List.filterMap_cons, OutputEvent.launched?, OutputEvent.enqueued?] using h.enQues
  lifecycle k hk := by simpa [OutputEvent.onSlot] using h.lifecycle k hk
  flags := h.flags.append (by simp [OwnFlags, OutputEvent.flag?])
  unwaited := by
    have hle := h.unwaited log (List.prefix_refl log)
    exact h.unwaited.concat (by simpa [List.countP_cons, OutputEvent.isLaunch] using by omega)
  balance := by
    simpa [List.countP_cons, OutputEvent.isLaunch, OutputEvent.isWait] using h.balance

/-- A launch while fewer than `n` copies are in flight. -/
theorem launch {output : OutputRecord} (h : History env n done (some output) o log)
    (hslot : slotId = done.length % 2) (hf : o.flying slotId = none)
    (he : o.enqueued = some b) (hflight : o.inFlight < n) :
    History env n (done ++ [output]) none (o.launch slotId)
      (log ++ [.launch slotId b output, .setFlag slotId (env.outputSlotEvent slotId)]) where
  records := by
    simp [List.filterMap_cons, OutputEvent.record?, h.records, launchedRecords_concat, readyRecord,
      hslot]
  allocs := by
    have hown : (o.launch slotId).own = o.own := by simp [Ownership.launch]
    simpa [List.filterMap_cons, OutputEvent.allocated?, OutputEvent.enqueued?, hown] using h.allocs
  enQues := by
    have henq : (o.launch slotId).enqueued = none := by simp [Ownership.launch]
    have hback := h.enQues
    rw [he] at hback
    simpa [List.filterMap_cons, OutputEvent.launched?, OutputEvent.enqueued?, henq] using hback
  lifecycle k hk := by
    have hlt : slotId < 2 := by omega
    have hlife := h.lifecycle k hk
    have hfly : (o.launch slotId).flying k = if k = slotId then some b else o.flying k := by
      rw [Ownership.launch, Ownership.flying_setFlying hlt hk, he]
      rfl
    rw [hfly, List.filter_append]
    by_cases heq : k = slotId
    · subst heq
      rw [hf] at hlife
      simpa [OutputEvent.onSlot] using hlife.launch b output
    · have hne : ¬ slotId = k := fun h => heq h.symm
      simpa [OutputEvent.onSlot, heq, hne] using hlife
  flags := by
    have hlt : slotId < 2 := by omega
    exact h.flags.append (by simpa [OwnFlags, OutputEvent.flag?] using hlt)
  unwaited := by
    have hbal := h.balance
    have hsplit : log ++
        [.launch slotId b output, .setFlag slotId (env.outputSlotEvent slotId)] =
      log ++ [.launch slotId b output] ++ [.setFlag slotId (env.outputSlotEvent slotId)] := by
        simp
    rw [hsplit]
    refine (h.unwaited.concat ?_).concat ?_ <;>
      simp [List.countP_cons, OutputEvent.isLaunch, OutputEvent.isWait] <;> omega
  balance := by
    have hcount := Ownership.inFlight_launch hf he
    have hbal := h.balance
    simp [List.countP_cons, OutputEvent.isLaunch, OutputEvent.isWait]
    omega

theorem enQue (h : History env n done ready o log) (hown : o.own = some b)
    (he : o.enqueued = none) :
    History env n done ready { o with enqueued := some b, own := none } (log ++ [.enQue b]) where
  records := by simpa [List.filterMap_cons, OutputEvent.record?] using h.records
  allocs := by
    have hback := h.allocs
    rw [hown] at hback
    simpa [List.filterMap_cons, OutputEvent.allocated?, OutputEvent.enqueued?] using hback
  enQues := by
    have hback := h.enQues
    rw [he] at hback
    simpa [List.filterMap_cons, OutputEvent.launched?, OutputEvent.enqueued?] using hback
  lifecycle k hk := by simpa [OutputEvent.onSlot] using h.lifecycle k hk
  flags := h.flags.append (by simp [OwnFlags, OutputEvent.flag?])
  unwaited := by
    have hle := h.unwaited log (List.prefix_refl log)
    exact h.unwaited.concat (by simpa [List.countP_cons, OutputEvent.isLaunch] using by omega)
  balance := by
    simpa [List.countP_cons, OutputEvent.isLaunch, OutputEvent.isWait] using h.balance

theorem queueDelayed (h : History env n done none o log) (output : OutputRecord)
    (hslot : slotId = done.length % 2) :
    History env n done (some output) o (log ++ [.queueDelayed slotId output]) where
  records := by
    simp [OutputEvent.record?, h.records, readyRecord, hslot]
  allocs := by
    simpa [List.filterMap_cons, OutputEvent.allocated?, OutputEvent.enqueued?] using h.allocs
  enQues := by
    simpa [List.filterMap_cons, OutputEvent.launched?, OutputEvent.enqueued?] using h.enQues
  lifecycle k hk := by simpa [OutputEvent.onSlot] using h.lifecycle k hk
  flags := h.flags.append (by simp [OwnFlags, OutputEvent.flag?])
  unwaited := by
    have hle := h.unwaited log (List.prefix_refl log)
    exact h.unwaited.concat (by simpa [List.countP_cons, OutputEvent.isLaunch] using by omega)
  balance := by
    simpa [List.countP_cons, OutputEvent.isLaunch, OutputEvent.isWait] using h.balance

end History

/-! ## The stream with its history -/

/-- A state with its ownership and its history. -/
structure Tracks (env : OutputEnv) (n : ℕ) (s : OutputStream) (o : Ownership)
    (done : List OutputRecord) (ready : Option OutputRecord) : Prop where
  represents : s.Represents env o
  history : History env n done ready o s.log
  valid : s.readyOutputValid = ready.isSome
  record : ∀ output, ready = some output →
    s.readyOutput = output ∧ s.readyOutputSlotId = done.length % 2

/-- The state between two batches: nothing in work, the last batch enqueued with its
record, and only the slot that comes next may be busy. -/
structure Between (env : OutputEnv) (records : List OutputRecord) (s : OutputStream) (o : Ownership)
    (done : List OutputRecord) (ready : Option OutputRecord) : Prop where
  tracks : Tracks env 1 s o done ready
  records_eq : records = done ++ ready.toList
  own : o.own = none
  enqueued : o.enqueued.isSome = ready.isSome
  next : s.nextOutputSlot = records.length % 2
  idle : o.flying ((records.length + 1) % 2) = none
  start : ready = none → o = .empty

namespace Tracks

variable {env : OutputEnv} {n : ℕ} {s : OutputStream} {o : Ownership}
  {done : List OutputRecord} {ready : Option OutputRecord} {slotId : ℕ}

/-- A slot is free after it is retired. -/
theorem retire (h : Tracks env n s o done ready) (hslot : slotId < 2) :
    ∃ s', s.retireOutputSlot env slotId = .ok s' ∧
      Tracks env n s' (o.setFlying slotId none) done ready ∧ s'.control = s.control := by
  cases hf : o.flying slotId with
  | none =>
      refine ⟨s, h.represents.retire_idle hslot hf, ?_, rfl⟩
      rw [Ownership.setFlying_none hf]
      exact h
  | some b =>
      obtain ⟨s', hrun, hrep, hcontrol, hlog⟩ := h.represents.retire_busy hslot hf
      simp only [OutputStream.control, Prod.mk.injEq] at hcontrol
      obtain ⟨hnext, hvalid, hready, houtput, hid⟩ := hcontrol
      refine ⟨s', hrun, ⟨hrep, ?_, ?_, ?_⟩, ?_⟩
      · rw [hlog]
        exact h.history.retire hslot hf
      · rw [hvalid]
        exact h.valid
      · intro output hout
        rw [houtput, hready]
        exact h.record output hout
      · simp [OutputStream.control, hnext, hvalid, hready, houtput, hid]

/-- The launch of the ready record, or nothing. -/
theorem launch (h : Tracks env n s o done ready) (he : o.enqueued.isSome = ready.isSome)
    (hf : o.flying (done.length % 2) = none) (hflight : o.inFlight < n) :
    ∃ s' o', s.launchReadyOutput env = .ok s' ∧ Tracks env n s' o' (done ++ ready.toList) none ∧
      o'.enqueued = none ∧ o'.own = o.own ∧
      (∀ k < 2, k ≠ done.length % 2 → o'.flying k = o.flying k) ∧
      (ready = none → o' = o) ∧ s'.nextOutputSlot = s.nextOutputSlot ∧
      s'.outputSlotId = s.outputSlotId := by
  cases ready with
  | none =>
      have henq : o.enqueued = none := by simpa using he
      refine ⟨s, o, OutputStream.launch_idle h.valid, ?_, henq, rfl, fun _ _ _ => rfl, fun _ => rfl,
        rfl, rfl⟩
      simpa using h
  | some output =>
      obtain ⟨b, hb⟩ := Option.isSome_iff_exists.mp he
      obtain ⟨hrec, hslot⟩ := h.record output rfl
      have hlt : done.length % 2 < 2 := Nat.mod_lt _ (by decide)
      have henq : s.enqueued = some b := h.represents.enqueued.trans hb
      refine ⟨s.launched env (done.length % 2) b, o.launch (done.length % 2),
        OutputStream.launch_eq h.valid hslot henq, ?_, by simp [Ownership.launch],
        by simp [Ownership.launch], ?_, by simp, rfl, rfl⟩
      · refine ⟨h.represents.launched hlt hb hf, ?_, rfl, ?_⟩
        · have hlaunch := h.history.launch rfl hf hb hflight
          simpa [OutputStream.launched, hrec] using hlaunch
        · intro output hout
          cases hout
      · intro k hk hne
        rw [Ownership.launch, Ownership.flying_setFlying hlt hk, if_neg hne]
        rfl

theorem acquire (h : Tracks env n s o done ready) (hslot : s.nextOutputSlot < 2) :
    ∃ s', s.acquireOutputSlot env = .ok s' ∧
      Tracks env n s' (o.setFlying s.nextOutputSlot none) done ready ∧
      s'.nextOutputSlot = s.nextOutputSlot ^^^ 1 ∧ s'.outputSlotId = s.nextOutputSlot := by
  obtain ⟨s', hrun, h', hcontrol⟩ := h.retire hslot
  simp only [OutputStream.control, Prod.mk.injEq] at hcontrol
  refine ⟨{ s' with nextOutputSlot := s'.nextOutputSlot ^^^ 1, outputSlotId := s.nextOutputSlot },
    ?_, ⟨h'.represents.of_control, h'.history, h'.valid, h'.record⟩, ?_, rfl⟩
  · simp [OutputStream.acquireOutputSlot, hrun, bind, Except.bind, pure, Except.pure]
  · simp [hcontrol.1]

theorem alloc (h : Tracks env n s o done ready) (hown : o.own = none)
    (hone : o.owned.length ≤ 1) :
    ∃ s' b, s.allocTensor env = .ok s' ∧ Tracks env n s' { o with own := some b } done ready ∧
      s'.nextOutputSlot = s.nextOutputSlot ∧ s'.outputSlotId = s.outputSlotId := by
  obtain ⟨b, -, hrun, hrep⟩ := h.represents.alloc hown hone
  exact ⟨s.allocated b, b, hrun, ⟨hrep, h.history.alloc hown, h.valid, h.record⟩, rfl, rfl⟩

theorem enQue {b : Bool} (h : Tracks env n s o done ready) (hown : o.own = some b)
    (he : o.enqueued = none) :
    ∃ s', s.enQue = .ok s' ∧
      Tracks env n s' { o with enqueued := some b, own := none } done ready ∧
      s'.nextOutputSlot = s.nextOutputSlot ∧ s'.outputSlotId = s.outputSlotId := by
  obtain ⟨hrun, hrep⟩ := h.represents.enQue hown he
  exact ⟨s.enqueuedWith b, hrun, ⟨hrep, h.history.enQue hown he, h.valid, h.record⟩, rfl, rfl⟩

theorem queueDelayed (h : Tracks env n s o done none) (output : OutputRecord)
    (hid : s.outputSlotId = done.length % 2) :
    Tracks env n (s.queueDelayedOutput output) o done (some output) := by
  refine ⟨h.represents.of_control, ?_, rfl, ?_⟩
  · exact h.history.queueDelayed output hid
  · intro output' hout
    cases hout
    exact ⟨rfl, hid⟩

end Tracks

/-! ## A batch -/

/-- The output commands of a batch: one or two launches of the batch before. -/
def batchStream (output : OutputRecord) (twice : Bool) : List LaneOp :=
  [.acquireOutputSlot, .allocOutput, .launchReadyOutput] ++
  (if twice then [.launchReadyOutput] else []) ++ [.enQueOutput, .queueOutput output]

section

variable {env : OutputEnv} {records : List OutputRecord} {s : OutputStream} {o : Ownership}
  {done : List OutputRecord} {ready : Option OutputRecord}

theorem between_init (env : OutputEnv) : Between env [] OutputStream.init .empty [] none where
  tracks := ⟨OutputStream.represents_init, History.init, rfl, fun _ h => by cases h⟩
  records_eq := rfl
  own := rfl
  enqueued := rfl
  next := rfl
  idle := rfl
  start _ := rfl

theorem mod_two_xor (n : ℕ) : n % 2 ^^^ 1 = (n + 1) % 2 := by
  obtain h | h : n % 2 = 0 ∨ n % 2 = 1 := by omega
  · rw [h, Nat.zero_xor]
    omega
  · rw [h, Nat.xor_self]
    omega

/-- **One batch** takes the next slot, launches the batch before it and leaves its own
tile and record behind. -/
theorem Between.batch (h : Between env records s o done ready) (output : OutputRecord)
    (twice : Bool) :
    ∃ s' o', runStream env (batchStream output twice) s = .ok s' ∧
      Between env (records ++ [output]) s' o' records (some output) := by
  have hlt : records.length % 2 < 2 := Nat.mod_lt _ (by decide)
  have hlen := congrArg List.length h.records_eq
  rw [List.length_append] at hlen
  -- the next slot is free, and what is left is the enqueued tile
  obtain ⟨s1, hacquire, h1, hnext1, hid1⟩ := h.tracks.acquire (h.next ▸ hlt)
  rw [h.next] at h1 hnext1 hid1
  have hidle : ∀ k < 2, (o.setFlying (records.length % 2) none).flying k = none := by
    intro k hk
    rw [Ownership.flying_setFlying hlt hk]
    split
    · rfl
    · have hother : k = (records.length + 1) % 2 := by omega
      rw [hother, h.idle]
  have hflight : (o.setFlying (records.length % 2) none).inFlight = 0 := by
    have h0 := hidle 0 (by decide)
    have h1 := hidle 1 (by decide)
    simp only [Ownership.flying, if_true, Nat.one_ne_zero, if_false] at h0 h1
    simp [Ownership.inFlight, h0, h1]
  have hone : (o.setFlying (records.length % 2) none).owned.length ≤ 1 := by
    have h0 := hidle 0 (by decide)
    have h1 := hidle 1 (by decide)
    simp only [Ownership.flying, if_true, Nat.one_ne_zero, if_false] at h0 h1
    simp only [Ownership.owned, h0, h1, Ownership.setFlying_own, Ownership.setFlying_enqueued,
      h.own]
    cases o.enqueued <;> simp
  -- a buffer for this batch
  obtain ⟨s2, b, halloc, h2, hnext2, hid2⟩ := h1.alloc (by simp [h.own]) hone
  -- the batch before it is launched; a second launch finds nothing ready
  obtain ⟨s3, o3, hlaunch, h3, henq3, hown3, hfly3, hsame3, hnext3, hid3⟩ :=
    h2.launch (by simpa using h.enqueued) (hidle _ (Nat.mod_lt _ (by decide)))
      (by simp [hflight])
  rw [← h.records_eq] at h3
  have hagain : s3.launchReadyOutput env = .ok s3 := OutputStream.launch_idle h3.valid
  -- the tile and its record
  obtain ⟨s4, henQue, h4, hnext4, hid4⟩ := h3.enQue hown3 henq3
  have hid : s4.outputSlotId = records.length % 2 := by rw [hid4, hid3, hid2, hid1]
  refine ⟨s4.queueDelayedOutput output, _, ?_, h4.queueDelayed output hid, rfl, rfl, rfl,
    ?_, ?_, ?_⟩
  · cases twice <;>
      simp [batchStream, LaneOp.stream, hacquire, halloc, hlaunch, hagain, henQue, bind,
        Except.bind]
  · change s4.nextOutputSlot = _
    rw [hnext4, hnext3, hnext2, hnext1, mod_two_xor, List.length_append, List.length_singleton]
  · have hback : ((records ++ [output]).length + 1) % 2 = records.length % 2 := by
      rw [List.length_append, List.length_singleton]
      omega
    rw [hback, Ownership.flying_mk]
    by_cases hk : records.length % 2 = done.length % 2
    · have hnone : ready = none := by
        cases hready : ready with
        | none => rfl
        | some output' =>
            rw [hready] at hlen
            simp at hlen
            omega
      rw [hsame3 hnone, Ownership.flying_mk]
      exact hidle _ hlt
    · rw [hfly3 _ hlt hk, Ownership.flying_mk]
      exact hidle _ hlt
  · intro hnone
    cases hnone

/-- Any number of batches. -/
theorem Between.batches (h : Between env records s o done ready)
    (batches : List (OutputRecord × Bool)) :
    ∃ s' o' done' ready',
      runStream env (batches.flatMap fun batch => batchStream batch.1 batch.2) s = .ok s' ∧
        Between env (records ++ batches.map Prod.fst) s' o' done' ready' := by
  induction batches generalizing records s o done ready with
  | nil => exact ⟨s, o, done, ready, rfl, by simpa using h⟩
  | cons batch batches ih =>
      obtain ⟨s1, o1, hrun, h1⟩ := h.batch batch.1 batch.2
      obtain ⟨s2, o2, done2, ready2, hrest, h2⟩ := ih h1
      refine ⟨s2, o2, done2, ready2, ?_, by simpa using h2⟩
      rw [List.flatMap_cons, runStream_append, hrun]
      exact hrest

/-- **The epilogue** launches the last batch and waits for both slots. -/
theorem Between.epilogue (h : Between env records s o done ready) :
    ∃ s', runStream env [.launchReadyOutput, .drainAllOutputSlots] s = .ok s' ∧
      Tracks env 2 s' .empty records none := by
  have hlt : done.length % 2 < 2 := Nat.mod_lt _ (by decide)
  have hlen := congrArg List.length h.records_eq
  rw [List.length_append] at hlen
  have htracks : Tracks env 2 s o done ready :=
    ⟨h.tracks.represents,
      { h.tracks.history with unwaited := h.tracks.history.unwaited.mono (by decide) },
      h.tracks.valid, h.tracks.record⟩
  have hfree : o.flying (done.length % 2) = none := by
    cases hready : ready with
    | none =>
        rw [h.start hready]
        unfold Ownership.flying
        split <;> rfl
    | some output =>
        rw [hready] at hlen
        simp only [Option.toList_some, List.length_singleton] at hlen
        have hidle := h.idle
        have hsame : (records.length + 1) % 2 = done.length % 2 := by omega
        rwa [hsame] at hidle
  have hflight : o.inFlight < 2 := by
    unfold Ownership.inFlight
    unfold Ownership.flying at hfree
    split at hfree
    · cases h1 : o.flying1 <;> simp [hfree]
    · cases h0 : o.flying0 <;> simp [hfree]
  obtain ⟨s1, o1, hlaunch, h1, henq, hown, -, -, -, -⟩ := htracks.launch h.enqueued hfree hflight
  rw [← h.records_eq] at h1
  obtain ⟨s2, hretire0, h2, -⟩ := h1.retire (Nat.zero_lt_two)
  obtain ⟨s3, hretire1, h3, -⟩ := h2.retire (Nat.one_lt_two)
  have hempty : (o1.setFlying 0 none).setFlying 1 none = .empty := by
    simp [Ownership.setFlying, henq, hown, h.own, Ownership.empty]
  rw [hempty] at h3
  refine ⟨s3, ?_, h3⟩
  simp [LaneOp.stream, hlaunch, OutputStream.drainAllOutputSlots, hretire0, hretire1, bind,
    Except.bind]

end

/-! ## The batches of a lane's program -/

namespace PipelineTask

variable (tiling : ChunkScaledDotKktTilingData) (groupId : ℕ) (task : PipelineTask)

/-- The record that a batch queues. -/
def batchRecord (batchId : ℕ) : OutputRecord :=
  let headId := task.firstHead tiling + task.batchRepeat batchId
  if (task.batchHeads batchId : ℤ) = GATE_HEAD_BATCH then
    queueDelayedPairOutput tiling.t headId task.start (task.rowCount.toNat * ROW_ELEMS)
  else queueDelayedSingleOutput tiling.t headId task.start task.rowStart.toNat task.rowCount.toNat

theorem prepareBatch_stream (batchId : ℕ) :
    (task.prepareBatch batchId).filter LaneOp.isOutput = [.launchReadyOutput] := by
  by_cases hheads : (task.batchHeads batchId : ℤ) = GATE_HEAD_BATCH
  · rw [prepareBatch, if_pos hheads]
    by_cases hrows : task.rowCount.toNat = 64 <;>
      simp [prepareHeadPairFactor, hrows, List.filter_cons, LaneOp.isOutput]
  · rw [prepareBatch, if_neg hheads]
    rfl

theorem prefetchNext_stream (batchId : ℕ) :
    (task.prefetchNext tiling batchId).filter LaneOp.isOutput = [] := by
  by_cases hnext : batchId + 1 < task.batchCount
  · rw [prefetchNext, if_pos hnext]
    rfl
  · rw [prefetchNext, if_neg hnext]
    rfl

theorem finalizeBatch_stream (batchId : ℕ) :
    (task.finalizeBatch tiling batchId).filter LaneOp.isOutput =
      [.enQueOutput, .queueOutput (task.batchRecord tiling batchId)] := by
  by_cases hheads : (task.batchHeads batchId : ℤ) = GATE_HEAD_BATCH
  · rw [finalizeBatch, batchRecord, if_pos hheads, if_pos hheads]
    rfl
  · rw [finalizeBatch, batchRecord, if_neg hheads, if_neg hheads]
    rfl

/-- Each batch is a batch of the stream. -/
theorem batchOps_stream (batchId : ℕ) :
    (task.batchOps tiling batchId).filter LaneOp.isOutput =
      batchStream (task.batchRecord tiling batchId) false := by
  have htail : (if task.chunkLen ≠ ROW_ELEMS then zeroTailGateAndBetaBatchSuffix
      task.chunkLen.toNat (task.batchHeads batchId) else []).filter LaneOp.isOutput = [] := by
    by_cases hlen : task.chunkLen = ROW_ELEMS
    · simp [hlen]
    · simpa [hlen] using
        zeroTail_filter (p := LaneOp.isOutput) (fun _ _ => rfl) (fun _ _ => rfl) rfl _ _
  have hcomplete : (completeKktLoadAndReleaseSlot task.slotId task.willReuseSlot).filter
      LaneOp.isOutput = [] := by
    cases task.willReuseSlot <;> rfl
  by_cases h0 : batchId = 0
  · simp only [batchOps, if_pos h0, List.filter_append, htail, prepareBatch_stream,
      prefetchNext_stream, finalizeBatch_stream, hcomplete]
    rfl
  · simp only [batchOps, if_neg h0, List.filter_append, htail, prepareBatch_stream,
      prefetchNext_stream, finalizeBatch_stream]
    rfl

/-- The records of a task, in order. -/
def records : List OutputRecord :=
  if task.hasWork then (List.range task.batchCount).map (task.batchRecord tiling) else []

theorem ops_stream : (task.ops tiling groupId).filter LaneOp.isOutput =
    (task.records tiling).flatMap fun output => batchStream output false := by
  cases hwork : task.hasWork with
  | true =>
      have hload : (beginLoadKktSlot groupId task.slotId task.chunkLen.toNat task.rowStart.toNat
          task.rowCount.toNat).filter LaneOp.isOutput = [] := by
        by_cases hlen : task.chunkLen.toNat = 64 <;> simp [beginLoadKktSlot, hlen, LaneOp.isOutput]
      simp only [ops, records, hwork, if_true, List.filter_append, prefetchBatch, hload,
        processHeadRange, List.filter_flatMap, batchOps_stream, List.flatMap_map]
      rfl
  | false =>
      cases hreuse : task.willReuseSlot <;> simp [ops, records, hwork, hreuse, LaneOp.isOutput]

end PipelineTask

namespace ChunkPair

variable (t : ℤ) (groupId : ℕ) (pair : ChunkPair)

theorem chunkOps_stream (start : ℤ) (slotId : ℕ) (reuse : Bool) (out0 out1 : ℕ) :
    (pair.chunkOps groupId start slotId reuse out0 out1).filter LaneOp.isOutput =
      [.launchReadyOutput] := by
  cases hpair : pair.kPair <;> cases reuse <;> simp only [chunkOps, hpair] <;> rfl

/-- The record of a fused pair. -/
def record : OutputRecord :=
  queueDelayedChunkPairOutput t pair.firstHeadId pair.firstStart pair.kHeadCount

/-- Both chunks are one batch, whose second launch has nothing to do. -/
theorem ops_stream : (pair.firstOps groupId ++ pair.secondOps t groupId).filter LaneOp.isOutput =
    batchStream (pair.record t) true := by
  rw [List.filter_append, firstOps, secondOps, List.filter_append, List.filter_append,
    chunkOps_stream, chunkOps_stream]
  rfl

end ChunkPair

/-- The records that an item queues. -/
def LaneItem.records (tiling : ChunkScaledDotKktTilingData) : LaneItem → List OutputRecord
  | .single task => task.records tiling
  | .pair chunks => [chunks.record tiling.t]

/-- Whether the batches of an item launch twice. -/
def LaneItem.isFused : LaneItem → Bool
  | .single _ => false
  | .pair _ => true

theorem LaneItem.parts_stream (tiling : ChunkScaledDotKktTilingData) (groupId : ℕ)
    (item : LaneItem) : (item.parts tiling groupId).flatten.filter LaneOp.isOutput =
      (item.records tiling).flatMap fun output => batchStream output item.isFused := by
  cases item with
  | single task => simpa [parts, records, isFused] using task.ops_stream tiling groupId
  | pair chunks =>
      simpa [parts, records, isFused] using chunks.ops_stream tiling.t groupId

/-- The batches of a lane's program. -/
def laneBatches (tiling : ChunkScaledDotKktTilingData) (items : List LaneItem) :
    List (OutputRecord × Bool) :=
  items.flatMap fun item => (item.records tiling).map fun output => (output, item.isFused)

/-- The commands of the items, before the epilogue. -/
def itemOps (tiling : ChunkScaledDotKktTilingData) (groupId : ℕ) (items : List LaneItem) :
    List LaneOp :=
  (items.flatMap (LaneItem.parts tiling groupId)).flatten

theorem itemOps_stream (tiling : ChunkScaledDotKktTilingData) (groupId : ℕ)
    (items : List LaneItem) : (itemOps tiling groupId items).filter LaneOp.isOutput =
      (laneBatches tiling items).flatMap fun batch => batchStream batch.1 batch.2 := by
  induction items with
  | nil => rfl
  | cons item items ih =>
      have hcons : itemOps tiling groupId (item :: items) =
          (item.parts tiling groupId).flatten ++ itemOps tiling groupId items := by
        simp [itemOps]
      rw [hcons, List.filter_append, ih, LaneItem.parts_stream]
      simp [laneBatches, List.flatMap_map]

/-- A stream that has launched the given records and is at rest. -/
structure Settled (env : OutputEnv) (records : List OutputRecord) (s : OutputStream) : Prop where
  /-- Each record is queued and then launched with the slot and the contents it was queued
  with, before the next one is queued. -/
  launched : s.log.filterMap OutputEvent.record? = launchedRecords records
  /-- The buffers launched are those allocated and enqueued, in this order. -/
  buffers : s.log.filterMap OutputEvent.allocated? = s.log.filterMap OutputEvent.launched? ∧
    s.log.filterMap OutputEvent.enqueued? = s.log.filterMap OutputEvent.launched?
  lifecycle : ∀ k < 2,
    Lifecycle k (env.outputSlotEvent k) (s.log.filter (OutputEvent.onSlot k)) none
  /-- With two event ids, every set and wait of an id is the one of its slot's launch. -/
  ownEvent : env.outputSlotEvent0 ≠ env.outputSlotEvent1 → ∀ k < 2,
    Lifecycle k (env.outputSlotEvent k)
      (s.log.filter (OutputEvent.onEvent k (env.outputSlotEvent k))) none
  unwaited : Unwaited 2 s.log
  mask : s.outputSlotBusyMask = 0
  valid : s.readyOutputValid = false
  enqueued : s.enqueued = none
  inUse : ∀ b, s.inUse b = false
  pending : ∀ e, s.pending e = 0

/-- No slot has a buffer in flight. -/
theorem Tracks.lifecycle_empty {env : OutputEnv} {n : ℕ} {s : OutputStream}
    {records : List OutputRecord} (h : Tracks env n s .empty records none) :
    ∀ k < 2, Lifecycle k (env.outputSlotEvent k) (s.log.filter (OutputEvent.onSlot k)) none := by
  intro k hk
  have hlife := h.history.lifecycle k hk
  have hnone : Ownership.empty.flying k = none := by
    unfold Ownership.flying
    split <;> rfl
  rwa [hnone] at hlife

theorem Tracks.settled {env : OutputEnv} {s : OutputStream} {records : List OutputRecord}
    (h : Tracks env 2 s .empty records none) : Settled env records s where
  launched := by simpa [readyRecord] using h.history.records
  buffers := by
    have hallocs := h.history.allocs
    have henQues := h.history.enQues
    simp only [Ownership.empty, Option.toList_none, List.append_nil] at hallocs henQues
    exact ⟨hallocs.trans henQues, henQues⟩
  lifecycle := h.lifecycle_empty
  ownEvent hne k hk := by
    rw [h.history.flags.filter_onEvent hne hk]
    exact h.lifecycle_empty k hk
  unwaited := h.history.unwaited
  mask := h.represents.mask
  valid := h.valid
  enqueued := h.represents.enqueued
  inUse b := by
    have huse := h.represents.inUse b
    simpa [Ownership.owned, Ownership.empty] using huse
  pending e := by simpa [Ownership.empty] using h.represents.pending e

/-- The stream of a lane before the epilogue and at the end. -/
theorem laneOps_tracks (env : OutputEnv) (tiling : ChunkScaledDotKktTilingData) (groupId : ℕ)
    (items : List LaneItem) :
    ∃ before o done ready final, runStream env (itemOps tiling groupId items) .init = .ok before ∧
      Between env (items.flatMap (LaneItem.records tiling)) before o done ready ∧
      runStream env (laneOps tiling groupId items) .init = .ok final ∧
      Tracks env 2 final .empty (items.flatMap (LaneItem.records tiling)) none := by
  obtain ⟨s, o, done, ready, hrun, hbetween⟩ :=
    (between_init env).batches (laneBatches tiling items)
  have hrecords : [] ++ (laneBatches tiling items).map Prod.fst =
      items.flatMap (LaneItem.records tiling) := by
    simp [laneBatches, List.map_flatMap, Function.comp_def]
  rw [hrecords] at hbetween
  obtain ⟨final, hfinal, htracks⟩ := hbetween.epilogue
  rw [← itemOps_stream tiling groupId, runStream_filter] at hrun
  refine ⟨s, o, done, ready, final, hrun, hbetween, ?_, htracks⟩
  have hsplit : laneOps tiling groupId items =
      itemOps tiling groupId items ++ [.launchReadyOutput, .drainAllOutputSlots] := rfl
  rw [hsplit, runStream_append, hrun]
  exact hfinal

/-- **The output stream of any lane program** runs without a failed allocation, queue
operation or wait; before the epilogue at most one launched copy is unwaited, and at the
end every batch has been launched once, in order, each buffer freed after a wait for the
event of its own launch, and every buffer is back. -/
theorem output_stream (env : OutputEnv) (tiling : ChunkScaledDotKktTilingData) (groupId : ℕ)
    (items : List LaneItem) :
    ∃ before final, runStream env (itemOps tiling groupId items) .init = .ok before ∧
      runStream env (laneOps tiling groupId items) .init = .ok final ∧
      Unwaited 1 before.log ∧ Settled env (items.flatMap (LaneItem.records tiling)) final := by
  obtain ⟨before, o, done, ready, final, hbefore, hbetween, hfinal, htracks⟩ :=
    laneOps_tracks env tiling groupId items
  exact ⟨before, final, hbefore, hfinal, hbetween.tracks.history.unwaited, htracks.settled⟩

end VectorStage

end ChunkScaledDotKkt
