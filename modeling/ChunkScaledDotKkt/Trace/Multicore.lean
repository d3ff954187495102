import ChunkScaledDotKkt.Lib.Fallible
import ChunkScaledDotKkt.Lib.GroupBy
import ChunkScaledDotKkt.Trace.Python
import Mathlib.Algebra.Ring.Int.Defs
import Mathlib.Data.List.Sort
import Mathlib.Data.Nat.Cast.Basic

/-!
# Accounting of a multi-core trace

`analyze_trace` counts the complete events of a trace and their bytes four times over:
by process, by logical core, by instruction and by the source of a transfer.  The
columns of times are left out, apart from the duration that the instruction rows are
sorted by.

What the report should say of a trace is stated from the events alone: which are complete,
and how many bytes each carries.

## Main definitions

* `completeEvents`, `carriedBytes` — the events and bytes of a trace.
* `Groups` — rows that hold every event once, by a key.

## Main results

* `groups_of_mapM`, `groups_coreRows` — the rows of the tool group the events.
* `accounting_conserved` — the four countings agree, with each other and with the trace.
-/

namespace ChunkScaledDotKkt.Trace

open Fallible GroupBy

inductive Engine where
  | aic | aiv | other
  deriving Repr, DecidableEq, Inhabited

/-- The word in a row. -/
def Engine.word : Engine → String
  | .aic => "AIC"
  | .aiv => "AIV"
  | .other => "other"

structure PidInfo where
  core : Option ℤ
  engine : Engine
  lane : Option ℤ
  deriving Repr, DecidableEq, Inhabited

inductive Role where
  | usefulAic | controlOnlyAic | activeAiv | inactiveAiv | other
  deriving Repr, DecidableEq

def vectorMathNames : List String :=
  ["VADDS", "VADD", "VSUB", "VSUBS", "VMUL", "VMULS", "VDIV", "VDIVS", "VEXP", "VLN", "VABS",
    "VMAX", "VMIN", "VMAXS", "VMINS", "VCMP", "VCMPVS", "VSEL", "VREDUCE", "VCONV", "VREC",
    "VRSQRT"]

def vectorControlNames : List String := ["BAR", "MOVEMASK", "VMOVMASK_XN", "MOVEV"]

structure ProcessRow where
  pid : String
  logicalCore : Option ℤ
  engine : Engine
  lane : Option ℤ
  role : Role
  eventCount : ℕ
  cubeMmadCount : ℕ
  vectorMathCount : ℕ
  vectorControlCount : ℕ
  transferBytes : ℤ

structure CoreRow where
  logicalCore : ℤ
  aicCount : ℕ
  aivCount : ℕ
  usefulAicCount : ℕ
  activeAivCount : ℕ
  inactiveAivCount : ℕ
  events : ℕ
  transferBytes : ℤ

structure InstructionRow (F : Type) where
  engine : Engine
  tid : String
  instruction : String
  count : ℕ
  sumDuration : F
  processBytes : ℤ

/-- The key of a transfer source. -/
structure SourceKey where
  engine : Engine
  name : String
  src : String
  dst : String
  processBytes : ℤ
  xn : String
  deriving DecidableEq, Inhabited

structure TransferSourceRow where
  engine : Engine
  instruction : String
  src : String
  dst : String
  processBytesEach : ℤ
  xnValue : String
  eventCount : ℕ
  totalBytes : ℤ

structure Summary where
  totalEvents : ℕ
  completeEvents : ℕ
  logicalCoreCount : ℕ
  processCount : ℕ
  mmadCount : ℕ
  totalTransferBytes : ℤ

structure Analysis (F : Type) where
  processRows : List ProcessRow
  coreRows : List CoreRow
  instructionRows : List (InstructionRow F)
  transferSourceRows : List TransferSourceRow
  summary : Summary

section

variable {F : Type} (py : Python F)

/-! ## Reading an event -/

/-- The pattern `^core(\d+)\.(cubecore|veccore)(\d+)$`; the end may be before a last
line break. -/
def matchPid (text : List Char) : Option (String × Engine × String) :=
  if "core".toList <+: text then
    let rest := text.drop 4
    let core := rest.takeWhile py.isDigit
    let rest := rest.dropWhile py.isDigit
    let engine : Option (Engine × List Char) :=
      if ".cubecore".toList <+: rest then some (.aic, rest.drop 9)
      else if ".veccore".toList <+: rest then some (.aiv, rest.drop 8)
      else none
    match engine with
    | some (engine, rest) =>
        let lane := rest.takeWhile py.isDigit
        let rest := rest.dropWhile py.isDigit
        if core ≠ [] ∧ lane ≠ [] ∧ (rest = [] ∨ rest = ['\n']) then
          some (String.ofList core, engine, String.ofList lane)
        else none
    | none => none
  else none

def parsePid (pid : Json F) : Except PyError PidInfo :=
  match matchPid py (py.str (py.orElse pid (.str ""))).toList with
  | some (core, engine, lane) => do
      return ⟨some (← py.intOfStr core), engine, some (← py.intOfStr lane)⟩
  | none => .ok ⟨none, .other, none⟩

/-- `integer(value)` with default 0. -/
def integer (value : Json F) : Except PyError ℤ :=
  let result := match value with
    | .str s => py.intOfStrBase0 s
    | value => py.int value
  match result with
  | .ok i => .ok i
  | .error e => if e.caught then .ok 0 else .error e

/-- `number(value)` with default 0. -/
def number (value : Json F) : Except PyError F :=
  match py.float value with
  | .ok x => .ok x
  | .error e => if e.caught then py.floatOfInt 0 else .error e

/-- `(event.get("args") or {}).get(key, default)`. -/
def getArgOr (event : Json F) (key : String) (default : Json F) : Except PyError (Json F) := do
  let args ← event.get "args" .null
  (py.orElse args (.obj [])).get key default

/-- The bytes of an event. -/
def processBytes (event : Json F) : Except PyError ℤ := do
  integer py (← getArgOr py event "process_bytes" .null)

def eventText (key : String) (event : Json F) : Except PyError String := do
  return py.str (← event.get key .null)

/-- `str(event.get(key) or "")`. -/
def eventTextOr (key : String) (event : Json F) : Except PyError String := do
  return py.str (py.orElse (← event.get key .null) (.str ""))

def eventDuration (event : Json F) : Except PyError F := do
  number py (← event.get "dur" .null)

def isTransfer (event : Json F) : Except PyError Bool := do
  let name ← eventTextOr py "name" event
  let tid ← eventTextOr py "tid" event
  let bytes ← processBytes py event
  if bytes > 0 then return true
  if tid ∉ ["MTE1", "MTE2", "MTE3", "FIXP"] then return false
  if name ∈ ["MOV_SPR_XN", "SET_CROSS_CORE", "BAR"] then return false
  return ["MOV_", "LOAD_", "FIX_"].any (startsWith name ·) || name ∈ ["SET_2D"]

/-- `parse_detail(detail).get(key, "")`: the last item `key: value` counts. -/
def parseDetail (detail key : String) : String :=
  let items := (detail.toList.splitOn ',').filterMap fun item =>
    let item := py.strip item
    if ':' ∈ item then
      some (String.ofList (py.strip (item.takeWhile (· ≠ ':'))),
        String.ofList (py.strip ((item.dropWhile (· ≠ ':')).drop 1)))
    else none
  (items.reverse.lookup key).getD ""

/-- The pattern `0x[0-9a-fA-F]+|-?\d+` at the start of a text. -/
def matchHexOrInt (text : List Char) : Option String :=
  let hex := (text.drop 2).takeWhile fun c => c.isDigit || "abcdefABCDEF".toList.contains c
  let sign := text.takeWhile (· = '-')
  let digits := (text.dropWhile (· = '-')).takeWhile py.isDigit
  if "0x".toList <+: text ∧ hex ≠ [] then some (String.ofList ("0x".toList ++ hex))
  else if sign.length ≤ 1 ∧ digits ≠ [] then some (String.ofList (sign ++ digits))
  else none

/-- The pattern `reg:[^=,]+=` and a value at the start of a text. -/
def matchRegister (reg : String) (text : List Char) : Option String :=
  let start := reg.toList ++ [':']
  if start <+: text then
    let rest := text.drop start.length
    let body := rest.takeWhile fun c => c ≠ '=' ∧ c ≠ ','
    match rest.dropWhile fun c => c ≠ '=' ∧ c ≠ ',' with
    | '=' :: value => if body ≠ [] then matchHexOrInt py value else none
    | _ => none
  else none

/-- `extract_register_value`: the first match that starts at a word boundary. -/
def extractRegisterValue (detail reg : String) : String :=
  let text := detail.toList
  let value := (List.range text.length).findSome? fun i =>
    let inWord := (text[i - 1]?).any py.isWord && decide (0 < i)
    if inWord then none else matchRegister py reg (text.drop i)
  value.getD ""

/-! ## The countings -/

/-- How many events have one of the names. -/
def countNames (names : List String) (known : List String) : ℕ :=
  (known.map fun name => names.count name).sum

def classifyProcess (info : PidInfo) (names : List String) : Role :=
  match info.engine with
  | .aic => if names.count "MMAD" > 0 then .usefulAic else .controlOnlyAic
  | .aiv => if vectorMathNames.any fun name => names.count name > 0 then .activeAiv
      else .inactiveAiv
  | .other => .other

def processRow (pid : String) (group : List (Json F)) : Except PyError ProcessRow := do
  let info ← parsePid py (.str pid)
  let names ← group.mapM (eventText py "name")
  let bytes ← group.mapM (processBytes py)
  return { pid
           logicalCore := info.core
           engine := info.engine
           lane := info.lane
           role := classifyProcess info names
           eventCount := group.length
           cubeMmadCount := names.count "MMAD"
           vectorMathCount := countNames names vectorMathNames
           vectorControlCount := countNames names vectorControlNames
           transferBytes := bytes.sum }

/-- The sort key of the process rows. -/
def processLt (a b : ProcessRow) : Bool :=
  let key := fun row : ProcessRow =>
    (row.logicalCore.getD 1000000000, row.engine.word, row.lane.getD 1000000000)
  let (core, engine, lane) := key a
  let (core', engine', lane') := key b
  core < core' || (core = core' && (engine < engine' || (engine = engine' && lane < lane')))

def coreRow (core : ℤ) (rows : List ProcessRow) : CoreRow where
  logicalCore := core
  aicCount := rows.countP fun row => row.engine = .aic
  aivCount := rows.countP fun row => row.engine = .aiv
  usefulAicCount := rows.countP fun row => row.role = .usefulAic
  activeAivCount := rows.countP fun row => row.role = .activeAiv
  inactiveAivCount := rows.countP fun row => row.role = .inactiveAiv
  events := (rows.map ProcessRow.eventCount).sum
  transferBytes := (rows.map ProcessRow.transferBytes).sum

def instructionKey (event : Json F) : Except PyError (Engine × String × String) := do
  let info ← parsePid py (← event.get "pid" .null)
  return (info.engine, ← eventText py "tid" event, ← eventText py "name" event)

def instructionRow (key : Engine × String × String) (group : List (Json F)) :
    Except PyError (InstructionRow F) := do
  let zero ← py.floatOfInt 0
  let durations ← group.mapM (eventDuration py)
  let bytes ← group.mapM (processBytes py)
  return { engine := key.1
           tid := key.2.1
           instruction := key.2.2
           count := group.length
           sumDuration := py.round6 (durations.foldl py.add zero)
           processBytes := bytes.sum }

/-- The sort key of the instruction rows. -/
def instructionLt (a b : InstructionRow F) : Bool :=
  let x := py.neg a.sumDuration
  let y := py.neg b.sumDuration
  if py.eq x y then b.count < a.count else py.lt x y

def sourceKey (event : Json F) : Except PyError SourceKey := do
  let detail := py.str (← getArgOr py event "detail" (.str ""))
  let info ← parsePid py (← event.get "pid" .null)
  let bytes ← processBytes py event
  let name ← eventText py "name" event
  return { engine := info.engine
           name
           src := parseDetail py detail "Src"
           dst := parseDetail py detail "Dst"
           processBytes := bytes
           xn := extractRegisterValue py detail "XN" }

def transferSourceRow (key : SourceKey) (group : List (Json F)) : TransferSourceRow where
  engine := key.engine
  instruction := key.name
  src := key.src
  dst := key.dst
  processBytesEach := key.processBytes
  xnValue := key.xn
  eventCount := group.length
  totalBytes := key.processBytes * group.length

/-- The sort key of the transfer source rows. -/
def transferSourceLt (a b : TransferSourceRow) : Bool :=
  b.totalBytes < a.totalBytes || (a.totalBytes = b.totalBytes && b.eventCount < a.eventCount)

def isX (event : Json F) : Except PyError Bool := do
  return (← event.get "ph" .null).isStr "X"

def isMmad (event : Json F) : Except PyError Bool := do
  return (← event.get "name" .null).isStr "MMAD"

/-- Descending in a strict order. -/
def sortRows {R : Type} (lt : R → R → Bool) (rows : List R) : List R :=
  rows.mergeSort fun a b => !lt b a

def analyzeTrace (events : List (Json F)) : Except PyError (Analysis F) := do
  let xEvents ← selectM isX events
  let byPid := groupBy Prod.fst (← keyed (eventText py "pid") xEvents)
  let processRows ← byPid.mapM fun g => processRow py g.1 (g.2.map Prod.snd)
  let processRows := sortRows processLt processRows
  let infos ← byPid.mapM fun g => parsePid py (.str g.1)
  let logicalCores := (infos.filterMap PidInfo.core).dedup.mergeSort (· ≤ ·)
  let processByCore := groupBy ProcessRow.logicalCore
    (processRows.filter fun row => row.logicalCore.isSome)
  let coreRows := logicalCores.map fun core => coreRow core (group processByCore (some core))
  let instructionGroups := groupBy Prod.fst (← keyed (instructionKey py) xEvents)
  let instructionRows ← instructionGroups.mapM fun g => instructionRow py g.1 (g.2.map Prod.snd)
  let transfers ← selectM (isTransfer py) xEvents
  let sourceGroups := groupBy Prod.fst (← keyed (sourceKey py) transfers)
  let transferSourceRows := sourceGroups.map fun g => transferSourceRow g.1 (g.2.map Prod.snd)
  let mmad ← selectM isMmad xEvents
  let bytes ← xEvents.mapM (processBytes py)
  return { processRows
           coreRows
           instructionRows := sortRows (instructionLt py) instructionRows
           transferSourceRows := sortRows transferSourceLt transferSourceRows
           summary :=
             { totalEvents := events.length
               completeEvents := xEvents.length
               logicalCoreCount := logicalCores.length
               processCount := byPid.length
               mmadCount := mmad.length
               totalTransferBytes := bytes.sum } }

end

/-! ## What a trace holds -/

section

variable {F : Type} (py : Python F)

/-- A complete event: its phase is `X`. -/
def isCompleteEvent : Json F → Bool
  | .obj fields =>
      match fields.reverse.lookup "ph" with
      | some phase => phase.isStr "X"
      | none => false
  | _ => false

def completeEvents (events : List (Json F)) : List (Json F) := events.filter isCompleteEvent

/-- The argument of an event under a key, if it has arguments with the key. -/
def argument? (event : Json F) (key : String) : Option (Json F) :=
  match event with
  | .obj fields =>
      match fields.reverse.lookup "args" with
      | some (.obj args) => args.reverse.lookup key
      | _ => none
  | _ => none

/-- The whole number that a value stands for, if it does. -/
def Python.number? : Json F → Option ℤ
  | .int i => some i
  | .bool b => some (if b then 1 else 0)
  | .float x => (py.intOfFloat x).toOption
  | .str s => (py.intOfStrBase0 s).toOption
  | _ => none

/-- **The bytes that an event carries**: the number under `process_bytes`, 0 if there is none. -/
def carriedBytes (event : Json F) : ℤ :=
  ((argument? event "process_bytes").bind py.number?).getD 0

/-- The core that the process of an event parses to. -/
def eventCore (event : Json F) : Except PyError (Option ℤ) := do
  let info ← parsePid py (.str (← eventText py "pid" event))
  return info.core

/-- The complete events of processes with a core. -/
def coreEvents (events : List (Json F)) : List (Json F) :=
  (completeEvents events).filter fun event => eventCore py event ≠ .ok none

/-- The complete events that the transfer filter keeps. -/
def transferEvents (events : List (Json F)) : List (Json F) :=
  (completeEvents events).filter fun event => isTransfer py event = .ok true

/-- The rows of a report group events by a key: every event has the key of exactly one row, no
row is without events, and a row counts the events with its key and adds up their bytes. -/
structure Groups {R κ : Type} [DecidableEq κ] (events : List (Json F))
    (key : Json F → Except PyError κ) (rows : List R) (rowKey : R → κ) (count : R → ℕ)
    (bytes : R → ℤ) : Prop where
  nodup : (rows.map rowKey).Nodup
  covers : ∀ event ∈ events, ∃ row ∈ rows, key event = .ok (rowKey row)
  occurs : ∀ row ∈ rows, ∃ event ∈ events, key event = .ok (rowKey row)
  count_eq : ∀ row ∈ rows, count row =
    (events.filter fun event => key event = .ok (rowKey row)).length
  bytes_eq : ∀ row ∈ rows, bytes row =
    ((events.filter fun event => key event = .ok (rowKey row)).map (carriedBytes py)).sum

end

/-- The key of an instruction row. -/
def InstructionRow.key {F : Type} (row : InstructionRow F) : Engine × String × String :=
  (row.engine, row.tid, row.instruction)

/-- The key of a transfer source row. -/
def TransferSourceRow.key (row : TransferSourceRow) : SourceKey :=
  ⟨row.engine, row.instruction, row.src, row.dst, row.processBytesEach, row.xnValue⟩

variable {F : Type} {py : Python F}

/-! ## Reading complete events and bytes -/

/-- The tool's test for a complete event. -/
theorem isX_ok {event : Json F} {x : Bool} (h : isX event = .ok x) : isCompleteEvent event = x := by
  rw [isX] at h
  obtain ⟨phase, hphase, h⟩ := bind_ok h
  rw [← pure_ok h]
  cases event with
  | obj fields =>
      simp only [Json.get, Except.ok.injEq] at hphase
      rw [isCompleteEvent, ← hphase]
      cases fields.reverse.lookup "ph" <;> rfl
  | _ => cases hphase

theorem selectM_isX {events xEvents : List (Json F)} (h : selectM isX events = .ok xEvents) :
    xEvents = completeEvents events := by
  obtain ⟨hfilter, hall⟩ := selectM_ok h
  rw [hfilter, completeEvents]
  exact List.filter_congr fun event he => (isX_ok (hall event he)).symm

/-- `integer` of a value that stands for a number, and 0 for any other. -/
theorem integer_ok {value : Json F} {i : ℤ} (h : integer py value = .ok i) :
    (py.number? value).getD 0 = i := by
  have hdefault : ∀ result : Except PyError ℤ,
      (match result with
        | .ok i => .ok i
        | .error e => if e.caught then .ok 0 else .error e) = Except.ok (ε := PyError) i →
      result.toOption.getD 0 = i := by
    intro result hresult
    cases result with
    | ok j => exact Except.ok.inj hresult
    | error e =>
        change (if e.caught then .ok 0 else .error e) = Except.ok i at hresult
        by_cases he : e.caught = true
        · rw [if_pos he] at hresult
          exact Except.ok.inj hresult
        · rw [if_neg he] at hresult
          cases hresult
  cases value with
  | int j => exact hdefault (.ok j) h
  | bool b => exact hdefault (.ok _) h
  | float x => exact hdefault _ h
  | str s => exact hdefault _ h
  | _ => exact hdefault (.error .typeError) h

/-- The tool looks a key up in the arguments, and in none if they are missing or empty. -/
theorem getArgOr_ok {event value default : Json F} {key : String}
    (h : getArgOr py event key default = .ok value) :
    (argument? event key).getD default = value := by
  rw [getArgOr] at h
  obtain ⟨args, hargs, h⟩ := bind_ok h
  cases event with
  | obj fields =>
      simp only [Json.get, Except.ok.injEq] at hargs
      rw [argument?]
      cases hlookup : fields.reverse.lookup "args" with
      | none =>
          rw [hlookup] at hargs
          subst hargs
          exact Except.ok.inj h
      | some args' =>
          rw [hlookup, Option.getD_some] at hargs
          subst hargs
          by_cases htruth : py.truth args' = true
          · rw [Python.orElse, if_pos htruth] at h
            cases args' with
            | obj items => exact Except.ok.inj h
            | _ => cases h
          · rw [Python.orElse, if_neg htruth] at h
            cases args' with
            | obj items =>
                -- an empty dict is falsy
                have hempty : items = [] := by simpa [Python.truth] using htruth
                subst hempty
                exact Except.ok.inj h
            | _ => exact Except.ok.inj h
  | _ => cases hargs

/-- **The tool reads the bytes that an event carries.** -/
theorem processBytes_ok {event : Json F} {bytes : ℤ} (h : processBytes py event = .ok bytes) :
    carriedBytes py event = bytes := by
  rw [processBytes] at h
  obtain ⟨value, hvalue, h⟩ := bind_ok h
  rw [← integer_ok h, ← getArgOr_ok hvalue, carriedBytes]
  cases argument? event "process_bytes" <;> rfl

/-- The bytes of a group, as the tool adds them up. -/
theorem sum_processBytes {events : List (Json F)} {bytes : List ℤ}
    (h : events.mapM (processBytes py) = .ok bytes) :
    bytes.sum = (events.map (carriedBytes py)).sum := by
  have hmap := map_of_mapM h (u := id) fun event _ b hb => (processBytes_ok hb).symm
  rw [List.map_id] at hmap
  rw [hmap]

/-- **The transfer filter keeps every event that carries bytes**, on any pipeline. -/
theorem isTransfer_of_pos {event : Json F} {transfer : Bool} (hpos : 0 < carriedBytes py event)
    (h : isTransfer py event = .ok transfer) : transfer = true := by
  rw [isTransfer] at h
  obtain ⟨_, -, h⟩ := bind_ok h
  obtain ⟨_, -, h⟩ := bind_ok h
  obtain ⟨bytes, hbytes, h⟩ := bind_ok h
  rw [processBytes_ok hbytes] at hpos
  rw [if_pos hpos] at h
  exact (pure_ok h).symm

/-- The bytes of an event are part of its source key. -/
theorem sourceKey_bytes {event : Json F} {key : SourceKey} (h : sourceKey py event = .ok key) :
    carriedBytes py event = key.processBytes := by
  rw [sourceKey] at h
  obtain ⟨_, -, h⟩ := bind_ok h
  obtain ⟨_, -, h⟩ := bind_ok h
  obtain ⟨_, -, h⟩ := bind_ok h
  obtain ⟨bytes, hbytes, h⟩ := bind_ok h
  obtain ⟨_, -, h⟩ := bind_ok h
  rw [processBytes_ok hbytes, ← pure_ok h]

/-! ## One row -/

/-- A row counts the events of a list. -/
def Tallies {R : Type} (py : Python F) (count : R → ℕ) (bytes : R → ℤ) (row : R)
    (events : List (Json F)) : Prop :=
  count row = events.length ∧ bytes row = (events.map (carriedBytes py)).sum

theorem processRow_ok {pid : String} {events : List (Json F)} {row : ProcessRow}
    (h : processRow py pid events = .ok row) :
    row.pid = pid ∧ Tallies py ProcessRow.eventCount ProcessRow.transferBytes row events ∧
      ∃ info, parsePid py (.str pid) = .ok info ∧ row.logicalCore = info.core := by
  rw [processRow] at h
  obtain ⟨info, hinfo, h⟩ := bind_ok h
  obtain ⟨names, -, h⟩ := bind_ok h
  obtain ⟨bytes, hbytes, h⟩ := bind_ok h
  rw [← pure_ok h]
  exact ⟨rfl, ⟨rfl, sum_processBytes hbytes⟩, info, hinfo, rfl⟩

theorem instructionRow_ok {key : Engine × String × String} {events : List (Json F)}
    {row : InstructionRow F} (h : instructionRow py key events = .ok row) :
    row.key = key ∧ Tallies py InstructionRow.count InstructionRow.processBytes row events := by
  rw [instructionRow] at h
  obtain ⟨zero, -, h⟩ := bind_ok h
  obtain ⟨durations, -, h⟩ := bind_ok h
  obtain ⟨bytes, hbytes, h⟩ := bind_ok h
  rw [← pure_ok h]
  exact ⟨rfl, rfl, sum_processBytes hbytes⟩

/-- The product of a source row is the sum over its events, which share their byte count. -/
theorem transferSourceRow_ok {key : SourceKey} {events : List (Json F)}
    (h : ∀ event ∈ events, sourceKey py event = .ok key) :
    Tallies py TransferSourceRow.eventCount TransferSourceRow.totalBytes
      (transferSourceRow key events) events := by
  refine ⟨rfl, ?_⟩
  have hshare : ∀ event ∈ events, carriedBytes py event = key.processBytes :=
    fun event he => sourceKey_bytes (h event he)
  rw [List.map_congr_left hshare]
  simp only [transferSourceRow, List.map_const', List.sum_replicate]
  rw [nsmul_eq_mul, Int.mul_comm]

/-! ## Groups of events -/

section

variable {κ : Type} [DecidableEq κ] [Inhabited κ] {key : Json F → Except PyError κ}
  {events : List (Json F)} {ps : List (κ × Json F)} (h : keyed key events = .ok ps)

include h

/-- The events of a group are those with its key. -/
theorem group_events {g : κ × List (κ × Json F)} (hg : g ∈ groupBy Prod.fst ps) :
    g.2.map Prod.snd = events.filter fun event => key event = .ok g.1 := by
  obtain ⟨hmap, hall⟩ := keyed_ok h
  rw [eq_filter_of_mem hg, hmap, List.filter_map, List.map_map]
  refine (List.map_id' _).trans (List.filter_congr fun event he => ?_)
  simp only [Function.comp_apply]
  rw [hall event he]
  simp

theorem mem_groups {k : κ} :
    k ∈ (groupBy Prod.fst ps).map Prod.fst ↔ ∃ event ∈ events, key event = .ok k := by
  obtain ⟨hmap, hall⟩ := keyed_ok h
  rw [mem_keys, hmap]
  simp only [List.mem_map, exists_exists_and_eq_and]
  refine exists_congr fun event => and_congr_right fun he => ?_
  rw [hall event he, Except.ok.injEq]

/-- **Rows made of the groups of a key** group the events. -/
theorem groups_of_mapM {R : Type} {rows : List R} {rowKey : R → κ} {count : R → ℕ} {bytes : R → ℤ}
    {rowOf : κ × List (κ × Json F) → Except PyError R}
    (hrows : (groupBy Prod.fst ps).mapM rowOf = .ok rows)
    (hrow : ∀ g ∈ groupBy Prod.fst ps, ∀ row, rowOf g = .ok row →
      rowKey row = g.1 ∧ Tallies py count bytes row (g.2.map Prod.snd)) :
    Groups py events key rows rowKey count bytes := by
  have hkeys : rows.map rowKey = (groupBy Prod.fst ps).map Prod.fst :=
    map_of_mapM hrows fun g hg row hok => (hrow g hg row hok).1
  have htally : ∀ row ∈ rows, Tallies py count bytes row
      (events.filter fun event => key event = .ok (rowKey row)) := by
    intro row hmem
    obtain ⟨g, hg, hok⟩ := mem_of_mapM hrows hmem
    obtain ⟨hkey, htallies⟩ := hrow g hg row hok
    rwa [group_events h hg, ← hkey] at htallies
  constructor
  · rw [hkeys]
    exact nodup_keys _ _
  · intro event he
    have hok := (keyed_ok h).2 event he
    have hmem := (mem_groups h).mpr ⟨event, he, hok⟩
    rw [← hkeys, List.mem_map] at hmem
    obtain ⟨row, hrow, heq⟩ := hmem
    exact ⟨row, hrow, by rw [hok, heq]⟩
  · intro row hrow
    rw [← mem_groups h, ← hkeys]
    exact List.mem_map_of_mem hrow
  · exact fun row hrow => (htally row hrow).1
  · exact fun row hrow => (htally row hrow).2

end

/-- What the transfer filter keeps. -/
theorem transferEvents_of_selectM {events transfers : List (Json F)}
    (h : selectM (isTransfer py) (completeEvents events) = .ok transfers) :
    transfers = transferEvents py events ∧ ∀ event ∈ completeEvents events,
      0 < carriedBytes py event → event ∈ transferEvents py events := by
  obtain ⟨hfilter, hall⟩ := selectM_ok h
  constructor
  · rw [hfilter, transferEvents]
    refine List.filter_congr fun event he => ?_
    rw [hall event he]
    simp
  · intro event he hpos
    have hok := hall event he
    rw [isTransfer_of_pos hpos hok] at hok
    exact List.mem_filter.mpr ⟨he, decide_eq_true hok⟩

/-- A sum may leave out zeros. -/
theorem sum_filter {α : Type} (p : α → Bool) {f : α → ℤ} {l : List α}
    (h : ∀ a ∈ l, p a = false → f a = 0) : ((l.filter p).map f).sum = (l.map f).sum := by
  induction l with
  | nil => rfl
  | cons a l ih =>
      have hrest := ih fun b hb => h b (List.mem_cons_of_mem a hb)
      by_cases hp : p a = true
      · simp [hp, hrest]
      · have hzero := h a (by simp) (by simpa using hp)
        simp [hp, hrest, hzero]

/-- What the transfer filter drops carries no bytes. -/
theorem sum_transferEvents {events : List (Json F)}
    (hcarry : ∀ event ∈ completeEvents events, 0 < carriedBytes py event →
      event ∈ transferEvents py events)
    (hpos : ∀ event ∈ completeEvents events, 0 ≤ carriedBytes py event) :
    ((transferEvents py events).map (carriedBytes py)).sum =
      ((completeEvents events).map (carriedBytes py)).sum := by
  apply sum_filter
  intro event he hdrop
  by_contra hne
  have hle := hpos event he
  have hkept := (List.mem_filter.mp (hcarry event he (by omega))).2
  rw [hdrop] at hkept
  cases hkept

/-- The source rows group the events that are kept. -/
theorem groups_transferSourceRows {events : List (Json F)} {keys : List (SourceKey × Json F)}
    (hkeys : keyed (sourceKey py) events = .ok keys) :
    Groups py events (sourceKey py)
      ((groupBy Prod.fst keys).map fun g => transferSourceRow g.1 (g.2.map Prod.snd))
      TransferSourceRow.key TransferSourceRow.eventCount TransferSourceRow.totalBytes := by
  refine groups_of_mapM hkeys List.mapM_pure fun g hg row hrow => ?_
  rw [← pure_ok hrow]
  refine ⟨rfl, transferSourceRow_ok fun event he => ?_⟩
  rw [group_events hkeys hg] at he
  exact of_decide_eq_true (List.mem_filter.mp he).2

namespace Groups

variable {R κ : Type} [DecidableEq κ] {events : List (Json F)} {key : Json F → Except PyError κ}
  {rows : List R} {rowKey : R → κ} {count : R → ℕ} {bytes : R → ℤ}
  (h : Groups py events key rows rowKey count bytes)

include h

/-- The order of the rows is free. -/
theorem sortRows (lt : R → R → Bool) :
    Groups py events key (sortRows lt rows) rowKey count bytes := by
  have hperm := List.mergeSort_perm rows fun a b => !lt b a
  have hmem : ∀ row, row ∈ Trace.sortRows lt rows ↔ row ∈ rows := fun row => hperm.mem_iff
  constructor
  · exact (hperm.map rowKey).nodup_iff.mpr h.nodup
  · intro event he
    obtain ⟨row, hrow, hkey⟩ := h.covers event he
    exact ⟨row, (hmem row).mpr hrow, hkey⟩
  · exact fun row hrow => h.occurs row ((hmem row).mp hrow)
  · exact fun row hrow => h.count_eq row ((hmem row).mp hrow)
  · exact fun row hrow => h.bytes_eq row ((hmem row).mp hrow)

variable {κ' : Type} [DecidableEq κ'] (key' : Json F → Except PyError κ') (coarse : R → κ')

/-- **Rows gathered by a coarser key** count the events with that key. -/
theorem sum_coarse {M : Type} [AddCommMonoid M] {f : R → M} {v : Json F → M}
    (hf : ∀ row ∈ rows, f row =
      ((events.filter fun event => key event = .ok (rowKey row)).map v).sum)
    (hcoarse : ∀ row ∈ rows, ∀ event ∈ events, key event = .ok (rowKey row) →
      key' event = .ok (coarse row)) (k : κ') :
    ((rows.filter fun row => coarse row = k).map f).sum =
      ((events.filter fun event => key' event = .ok k).map v).sum := by
  let keys := (rows.filter fun row => coarse row = k).map fun row =>
    (Except.ok (rowKey row) : Except PyError κ)
  have hnodup : keys.Nodup := by
    have hall : (rows.map fun row => (Except.ok (rowKey row) : Except PyError κ)).Nodup := by
      have hmap := h.nodup.map (fun _ _ heq => Except.ok.inj heq :
        Function.Injective (Except.ok : κ → Except PyError κ))
      rwa [List.map_map] at hmap
    exact hall.sublist (List.filter_sublist.map _)
  have hkeys : ∀ event ∈ events.filter (fun event => key' event = .ok k), key event ∈ keys := by
    intro event he
    obtain ⟨hmem, hkey'⟩ := List.mem_filter.mp he
    obtain ⟨row, hrow, hkey⟩ := h.covers event hmem
    have hrowCoarse := hcoarse row hrow event hmem hkey
    rw [of_decide_eq_true hkey'] at hrowCoarse
    rw [hkey]
    exact List.mem_map.mpr ⟨row, List.mem_filter.mpr
      ⟨hrow, decide_eq_true (Except.ok.inj hrowCoarse).symm⟩, rfl⟩
  have hfibers := sum_fibers key v hnodup hkeys
  rw [← hfibers, List.map_map]
  congr 1
  refine List.map_congr_left fun row hrow => ?_
  obtain ⟨hmem, hk⟩ := List.mem_filter.mp hrow
  rw [hf row hmem, Function.comp_apply, List.filter_filter]
  congr 2
  refine List.filter_congr fun event he => ?_
  by_cases hkey : key event = .ok (rowKey row)
  · have hevent := hcoarse row hmem event he hkey
    rw [of_decide_eq_true hk] at hevent
    simp [hkey, hevent]
  · simp [hkey]

theorem count_coarse (hcoarse : ∀ row ∈ rows, ∀ event ∈ events, key event = .ok (rowKey row) →
      key' event = .ok (coarse row)) (k : κ') :
    ((rows.filter fun row => coarse row = k).map count).sum =
      (events.filter fun event => key' event = .ok k).length := by
  have hone : ∀ l : List (Json F), (l.map fun _ => 1).sum = l.length := by simp
  rw [h.sum_coarse key' coarse (fun row hrow => (h.count_eq row hrow).trans (hone _).symm)
    hcoarse k, hone]

theorem bytes_coarse (hcoarse : ∀ row ∈ rows, ∀ event ∈ events, key event = .ok (rowKey row) →
      key' event = .ok (coarse row)) (k : κ') :
    ((rows.filter fun row => coarse row = k).map bytes).sum =
      ((events.filter fun event => key' event = .ok k).map (carriedBytes py)).sum :=
  h.sum_coarse key' coarse h.bytes_eq hcoarse k

/-- **The rows count every event once.** -/
theorem sum_count : (rows.map count).sum = events.length := by
  have hall := h.count_coarse (fun _ => .ok ()) (fun _ => ())
    (fun _ _ _ _ _ => rfl) ()
  simpa using hall

theorem sum_bytes : (rows.map bytes).sum = (events.map (carriedBytes py)).sum := by
  have hall := h.bytes_coarse (fun _ => .ok ()) (fun _ => ())
    (fun _ _ _ _ _ => rfl) ()
  simpa using hall

end Groups

/-! ## The countings agree -/

/-- What a report says of the events of a trace: its totals are those of the complete events,
and each of its four groupings holds every event once. -/
structure Conserved (py : Python F) (events : List (Json F)) (a : Analysis F) : Prop where
  complete_events : a.summary.completeEvents = (completeEvents events).length
  total_bytes :
    a.summary.totalTransferBytes = ((completeEvents events).map (carriedBytes py)).sum
  processes : Groups py (completeEvents events) (eventText py "pid") a.processRows ProcessRow.pid
    ProcessRow.eventCount ProcessRow.transferBytes
  cores : Groups py (coreEvents py events) (eventCore py) a.coreRows
    (fun row => some row.logicalCore) CoreRow.events CoreRow.transferBytes
  instructions : Groups py (completeEvents events) (instructionKey py) a.instructionRows
    InstructionRow.key InstructionRow.count InstructionRow.processBytes
  transfers : Groups py (transferEvents py events) (sourceKey py) a.transferSourceRows
    TransferSourceRow.key TransferSourceRow.eventCount TransferSourceRow.totalBytes
  transfers_carry : ∀ event ∈ completeEvents events, 0 < carriedBytes py event →
    event ∈ transferEvents py events
  process_bytes : (a.processRows.map ProcessRow.transferBytes).sum = a.summary.totalTransferBytes
  instruction_bytes :
    (a.instructionRows.map InstructionRow.processBytes).sum = a.summary.totalTransferBytes
  source_bytes :
    (a.transferSourceRows.map TransferSourceRow.totalBytes).sum = a.summary.totalTransferBytes
  process_events : (a.processRows.map ProcessRow.eventCount).sum = a.summary.completeEvents
  instruction_events : (a.instructionRows.map InstructionRow.count).sum = a.summary.completeEvents
  parsed : ∀ row ∈ a.processRows, ∃ info, parsePid py (.str row.pid) = .ok info ∧
    row.logicalCore = info.core
  core_bytes : (a.coreRows.map CoreRow.transferBytes).sum =
    ((a.processRows.filter fun row => row.logicalCore.isSome).map ProcessRow.transferBytes).sum
  core_events : (a.coreRows.map CoreRow.events).sum =
    ((a.processRows.filter fun row => row.logicalCore.isSome).map ProcessRow.eventCount).sum

section

variable {events : List (Json F)} {rows : List ProcessRow}
  (h : Groups py (completeEvents events) (eventText py "pid") rows ProcessRow.pid
    ProcessRow.eventCount ProcessRow.transferBytes)
  (hparsed : ∀ row ∈ rows, ∃ info, parsePid py (.str row.pid) = .ok info ∧
    row.logicalCore = info.core)

include hparsed in
/-- The events of a process row have its core. -/
theorem eventCore_of_pid {row : ProcessRow} (hrow : row ∈ rows) {event : Json F}
    (hpid : eventText py "pid" event = .ok row.pid) :
    eventCore py event = .ok row.logicalCore := by
  obtain ⟨info, hinfo, hcore⟩ := hparsed row hrow
  rw [eventCore, hpid, hcore]
  change (parsePid py (.str row.pid) >>= fun info => pure info.core) = _
  rw [hinfo]
  rfl

include h hparsed

/-- **Core rows group the events of processes with a core.** -/
theorem groups_coreRows {cores : List ℤ} (hnodup : cores.Nodup)
    (hcores : ∀ core, core ∈ cores ↔ ∃ row ∈ rows, row.logicalCore = some core) :
    Groups py (coreEvents py events) (eventCore py)
      (cores.map fun core => coreRow core (group (groupBy ProcessRow.logicalCore
        (rows.filter fun row => row.logicalCore.isSome)) (some core)))
      (fun row => some row.logicalCore) CoreRow.events CoreRow.transferBytes := by
  have hcoarse : ∀ row ∈ rows, ∀ event ∈ completeEvents events,
      eventText py "pid" event = .ok row.pid → eventCore py event = .ok row.logicalCore :=
    fun row hrow event _ => eventCore_of_pid hparsed hrow
  have hgroup : ∀ core : ℤ, group (groupBy ProcessRow.logicalCore
      (rows.filter fun row => row.logicalCore.isSome)) (some core) =
        rows.filter fun row => row.logicalCore = some core := by
    intro core
    rw [group_eq_filter, List.filter_filter]
    refine List.filter_congr fun row _ => ?_
    cases row.logicalCore <;> simp
  have hfilter : ∀ core : ℤ,
      ((coreEvents py events).filter fun event => eventCore py event = .ok (some core)) =
        (completeEvents events).filter fun event => eventCore py event = .ok (some core) := by
    intro core
    rw [coreEvents, List.filter_filter]
    refine List.filter_congr fun event _ => ?_
    by_cases hcore : eventCore py event = .ok (some core) <;> simp [hcore]
  constructor
  · rw [List.map_map]
    exact hnodup.map (Option.some_injective ℤ)
  · intro event he
    obtain ⟨hmem, hsome⟩ := List.mem_filter.mp he
    obtain ⟨row, hrow, hpid⟩ := h.covers event hmem
    have hevent := hcoarse row hrow event hmem hpid
    cases hcore : row.logicalCore with
    | none =>
        rw [hcore] at hevent
        exact absurd hevent (of_decide_eq_true hsome)
    | some core =>
        refine ⟨_, List.mem_map_of_mem ((hcores core).mpr ⟨row, hrow, hcore⟩), ?_⟩
        rw [hevent, hcore]
        rfl
  · intro coreRow hmem
    obtain ⟨core, hcore, rfl⟩ := List.mem_map.mp hmem
    obtain ⟨row, hrow, hsome⟩ := (hcores core).mp hcore
    obtain ⟨event, he, hpid⟩ := h.occurs row hrow
    have hevent := hcoarse row hrow event he hpid
    rw [hsome] at hevent
    refine ⟨event, List.mem_filter.mpr ⟨he, ?_⟩, hevent⟩
    simp [hevent]
  · intro row hmem
    obtain ⟨core, -, rfl⟩ := List.mem_map.mp hmem
    have hcount := h.count_coarse _ _ hcoarse (some core)
    rw [← hgroup, ← hfilter] at hcount
    exact hcount
  · intro row hmem
    obtain ⟨core, -, rfl⟩ := List.mem_map.mp hmem
    have hbytes := h.bytes_coarse _ _ hcoarse (some core)
    rw [← hgroup, ← hfilter] at hbytes
    exact hbytes

/-- The cores that the tool lists are those of its process rows. -/
theorem mem_logicalCores {pids : List (String × Json F)} {infos : List PidInfo}
    (hpids : keyed (eventText py "pid") (completeEvents events) = .ok pids)
    (hinfos : (groupBy Prod.fst pids).mapM (fun g => parsePid py (.str g.1)) = .ok infos)
    (core : ℤ) : core ∈ (infos.filterMap PidInfo.core).dedup.mergeSort (· ≤ ·) ↔
      ∃ row ∈ rows, row.logicalCore = some core := by
  rw [List.mem_mergeSort, List.mem_dedup, List.mem_filterMap]
  constructor
  · rintro ⟨info, hinfo, hcore⟩
    obtain ⟨g, hg, hparse⟩ := mem_of_mapM hinfos hinfo
    obtain ⟨event, he, hpid⟩ := (mem_groups hpids).mp (List.mem_map_of_mem hg)
    obtain ⟨row, hrow, hrowPid⟩ := h.covers event he
    obtain ⟨info', hparse', hrowCore⟩ := hparsed row hrow
    rw [hpid, Except.ok.injEq] at hrowPid
    rw [← hrowPid, hparse, Except.ok.injEq] at hparse'
    exact ⟨row, hrow, by rw [hrowCore, ← hparse', hcore]⟩
  · rintro ⟨row, hrow, hcore⟩
    obtain ⟨event, he, hpid⟩ := h.occurs row hrow
    obtain ⟨g, hg, hkey⟩ := List.mem_map.mp ((mem_groups hpids).mpr ⟨event, he, hpid⟩)
    obtain ⟨info, hparse, hrowCore⟩ := hparsed row hrow
    obtain ⟨hmap, hall⟩ := mapM_ok hinfos
    have hvalue := hall g hg
    rw [hkey, hparse, Except.ok.injEq] at hvalue
    refine ⟨info, ?_, by rw [← hrowCore, hcore]⟩
    rw [hmap, hvalue]
    exact List.mem_map_of_mem hg

/-- The rows of processes with a core, and their events. -/
theorem sum_withCore {M : Type} [AddCommMonoid M] {f : ProcessRow → M} {v : Json F → M}
    (hf : ∀ row ∈ rows, f row =
      (((completeEvents events).filter fun event =>
        eventText py "pid" event = .ok row.pid).map v).sum) :
    ((rows.filter fun row => row.logicalCore.isSome).map f).sum =
      ((coreEvents py events).map v).sum := by
  have hsum := h.sum_coarse (fun event => (eventCore py event).map Option.isSome)
    (fun row => row.logicalCore.isSome) hf (fun row hrow event _ hpid => by
      rw [eventCore_of_pid hparsed hrow hpid]
      rfl) true
  simp only [Bool.decide_eq_true] at hsum
  rw [hsum, coreEvents]
  congr 2
  refine List.filter_congr fun event he => ?_
  obtain ⟨row, hrow, hpid⟩ := h.covers event he
  rw [eventCore_of_pid hparsed hrow hpid]
  cases row.logicalCore <;> simp [Except.map]

end

/-- **Events and bytes are conserved** by every grouping, for traces whose complete events
carry no negative byte counts. -/
theorem accounting_conserved {events : List (Json F)} {a : Analysis F}
    (hrun : analyzeTrace py events = .ok a)
    (hpos : ∀ event ∈ completeEvents events, 0 ≤ carriedBytes py event) :
    Conserved py events a := by
  rw [analyzeTrace] at hrun
  obtain ⟨xEvents, hx, hrun⟩ := bind_ok hrun
  obtain ⟨pids, hpids, hrun⟩ := bind_ok hrun
  obtain ⟨processRows, hprocess, hrun⟩ := bind_ok hrun
  obtain ⟨infos, hinfos, hrun⟩ := bind_ok hrun
  obtain ⟨instructions, hinstructions, hrun⟩ := bind_ok hrun
  obtain ⟨instructionRows, hinstruction, hrun⟩ := bind_ok hrun
  obtain ⟨transfers, htransfers, hrun⟩ := bind_ok hrun
  obtain ⟨sources, hsources, hrun⟩ := bind_ok hrun
  obtain ⟨mmad, hmmad, hrun⟩ := bind_ok hrun
  obtain ⟨bytes, hbytes, hrun⟩ := bind_ok hrun
  obtain rfl := pure_ok hrun
  obtain rfl := selectM_isX hx
  obtain ⟨rfl, hcarry⟩ := transferEvents_of_selectM htransfers
  have htotal := sum_processBytes hbytes
  have hprocesses := (groups_of_mapM hpids hprocess fun g _ row h =>
    ⟨(processRow_ok h).1, (processRow_ok h).2.1⟩).sortRows processLt
  have hinstructionGroups := (groups_of_mapM hinstructions hinstruction fun g _ row h =>
    instructionRow_ok h).sortRows (instructionLt py)
  have hsourceGroups := (groups_transferSourceRows hsources).sortRows transferSourceLt
  have hparsed : ∀ row ∈ sortRows processLt processRows, ∃ info,
      parsePid py (.str row.pid) = .ok info ∧ row.logicalCore = info.core := by
    intro row hrow
    obtain ⟨g, -, hok⟩ := mem_of_mapM hprocess ((List.mergeSort_perm _ _).mem_iff.mp hrow)
    obtain ⟨hpid, -, info, hinfo, hcore⟩ := processRow_ok hok
    exact ⟨info, hpid ▸ hinfo, hcore⟩
  have hcoreGroups := groups_coreRows hprocesses hparsed
    ((List.mergeSort_perm _ _).nodup_iff.mpr (List.nodup_dedup _))
    (mem_logicalCores hprocesses hparsed hpids hinfos)
  have hone : ∀ l : List (Json F), (l.map fun _ => 1).sum = l.length := by simp
  constructor
  · rfl
  · exact htotal
  · exact hprocesses
  · exact hcoreGroups
  · exact hinstructionGroups
  · exact hsourceGroups
  · exact hcarry
  · exact hprocesses.sum_bytes.trans htotal.symm
  · exact hinstructionGroups.sum_bytes.trans htotal.symm
  · rw [hsourceGroups.sum_bytes, sum_transferEvents hcarry hpos, ← htotal]
  · exact hprocesses.sum_count
  · exact hinstructionGroups.sum_count
  · exact hparsed
  · rw [hcoreGroups.sum_bytes, sum_withCore hprocesses hparsed hprocesses.bytes_eq]
  · rw [hcoreGroups.sum_count, ← hone,
      sum_withCore hprocesses hparsed fun row hrow =>
        (hprocesses.count_eq row hrow).trans (hone _).symm]

/-- A load and a copy back of one vector core. -/
def loadAndStore : List (Json ℤ) :=
  let event := fun tid name bytes => Json.obj [("ph", .str "X"), ("pid", .str "core0.veccore0"),
    ("tid", .str tid), ("name", .str name), ("ts", .int 0), ("dur", .int 1),
    ("args", .obj [("process_bytes", .int bytes)])]
  [event "MTE2" "MOV_OUT_TO_UB" 512, event "MTE3" "MOV_UB_TO_OUT" 16384]

theorem accounting_loadAndStore : ∃ a, analyzeTrace plainPython loadAndStore = .ok a ∧
    Conserved plainPython loadAndStore a ∧ a.summary.completeEvents = 2 ∧
    a.summary.totalTransferBytes = 16896 := by
  obtain ⟨a, ha⟩ : ∃ a, analyzeTrace plainPython loadAndStore = .ok a := ⟨_, rfl⟩
  have hconserved := accounting_conserved ha (by decide)
  exact ⟨a, ha, hconserved, hconserved.complete_events, hconserved.total_bytes⟩

end ChunkScaledDotKkt.Trace
