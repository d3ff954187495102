import ChunkScaledDotKkt.Lib.Fallible
import ChunkScaledDotKkt.Trace.Python

/-!
# Classification of trace events

`load_trace` labels the complete events of a trace and `analyze` looks at the windows
around the events labelled as KKT loads.  The label comes from a cascade that asks for
the size of an event before it asks for its pipeline.

## Main results

* `classify_isLoad_iff`, `classify_output_iff` — when the cascade gives a load label and
  when it labels a positive MTE3 event as an output copy.
* `respectsPipeline_iff` — the traces whose labels respect the pipelines.
-/

namespace ChunkScaledDotKkt.Trace

open Fallible

def factorOps : List String :=
  ["VMULS", "MULS", "VBRCB", "BRCB", "VADD", "VCMP", "VSEL", "VEXP", "VCONV", "CAST"]

inductive Core where
  | aic | aiv | unknown
  deriving Repr, DecidableEq

inductive Kind where
  | aicReady | aivFree | gMte2 | betaMte2 | kktMte2 | factorVector | outputMte3
  | aivReadyWait | aicCompute
  deriving Repr, DecidableEq

/-- The labels of the three loads. -/
def Kind.isLoad : Kind → Bool
  | .gMte2 | .betaMte2 | .kktMte2 => true
  | _ => false

/-- A returned row. -/
structure Row (F : Type) where
  index : ℕ
  ts : F
  stop : F
  dur : F
  process : String
  pipeline : String
  name : Json F
  kind : Kind
  bytes : Option ℤ
  pc : Json F

section

variable {F : Type} (py : Python F)

/-! ## Reading an event -/

/-- `event.get("args", {}).get(key, default)`. -/
def getArg (event : Json F) (key : String) (default : Json F) : Except PyError (Json F) := do
  let args ← event.get "args" (.obj [])
  args.get key default

/-- Schema 1: names of numeric process ids, later entries override. -/
def parseProcessNames : List (Json F) → Except PyError (List (String × String))
  | [] => .ok []
  | event :: events => do
      let ph ← event.get "ph" .null
      let name ← event.get "name" .null
      if ph.isStr "M" && name.isStr "process_name" then
        let pid := py.str (← event.get "pid" .null)
        let processName ← getArg event "name" (.str pid)
        let later ← parseProcessNames events
        return (pid, py.str processName) :: later
      else parseProcessNames events

def processName (names : List (String × String)) (pid : String) : String :=
  (names.reverse.lookup pid).getD pid

/-- The pattern `process_bytes["']?\s*[:=]\s*["']?(\d+)` at the start of a text. -/
def matchProcessBytes (text : List Char) : Option String :=
  let dropQuote : List Char → List Char
    | c :: rest => if c = '"' ∨ c = '\'' then rest else c :: rest
    | [] => []
  if "process_bytes".toList <+: text then
    match (dropQuote (text.drop 13)).dropWhile py.isSpace with
    | c :: rest =>
        if c = ':' ∨ c = '=' then
          let digits := (dropQuote (rest.dropWhile py.isSpace)).takeWhile py.isDigit
          if digits.isEmpty then none else some (String.ofList digits)
        else none
    | [] => none
  else none

/-- `re.search`: the first place where the pattern matches. -/
def searchProcessBytes (text : String) : Option String :=
  text.toList.tails.findSome? (matchProcessBytes py)

/-- The byte count of the detail text. -/
def detailBytes (event : Json F) : Except PyError (Option ℤ) := do
  let detail ← getArg event "detail" (.str "")
  match searchProcessBytes py (py.str detail) with
  | some digits => return some (← py.intOfStr digits)
  | none => return none

def getProcessBytes (event : Json F) : Except PyError (Option ℤ) := do
  let raw ← getArg event "process_bytes" .null
  if raw.isNull then detailBytes py event
  else
    match py.int raw with
    | .ok bytes => return some bytes
    | .error e => if e.caught then detailBytes py event else .error e

/-! ## The cascade -/

def classifyCore (process : String) : Core :=
  if contains (py.upper process) "CUBECORE" then .aic
  else if contains (py.upper process) "VECCORE" then .aiv
  else .unknown

/-- The factor test on the name of an event. -/
def factorName (name : String) : Bool := factorOps.any fun op => contains name op

/-- The cascade of `classify_event` over the texts it has read. -/
def classify (core : Core) (name detail code : String) (size : Option ℤ) (pipeline : String) :
    Option Kind :=
  if core = .aic ∧ name = "SET_CROSS_CORE" then some .aicReady
  else if core = .aiv ∧ name = "SET_CROSS_CORE" then some .aivFree
  else if core = .aiv ∧ size = some 512 then some .gMte2
  else if core = .aiv ∧ size = some 256 then some .betaMte2
  else if core = .aiv ∧ size = some 16384 then some .kktMte2
  else if core = .aiv ∧ (py.upper pipeline = "VECTOR" ∨ py.upper pipeline = "VEC" ∨
      startsWith name "V") ∧ factorName name then some .factorVector
  else if core = .aiv ∧ (py.upper pipeline = "MTE3" ∨ contains name "UB_TO_OUT") then
    some .outputMte3
  else if core = .aiv ∧ name = "WAIT_FLAG" ∧
      (contains detail "CROSS" ∨ contains code "CROSSCOREWAITFLAG") then some .aivReadyWait
  else if core = .aic ∧ (contains name "MMAD" ∨ py.upper pipeline = "CUBE" ∨
      py.upper pipeline = "FIXP") then some .aicCompute
  else none

/-- The name that the cascade tests. -/
def eventName (event : Json F) : Except PyError String := do
  let name ← event.get "name" (.str "")
  return py.upper (py.str name)

def classifyEvent (event : Json F) (process pipeline : String) :
    Except PyError (Option Kind) := do
  let name ← eventName py event
  let detail ← getArg event "detail" (.str "")
  let code ← getArg event "code" (.str "")
  let size ← getProcessBytes py event
  return classify py (classifyCore py process) name (py.upper (py.str detail))
    (py.upper (py.str code)) size pipeline

/-! ## The loader -/

def pipelineNames : List String :=
  ["CUBE", "FIXP", "VECTOR", "MTE1", "MTE2", "MTE3", "SCALAR", "FLOWCTRL"]

/-- The process of an event: its id, or the name the metadata give it. -/
def eventProcess (names : List (String × String)) (event : Json F) : Except PyError String := do
  let pid ← event.get "pid" (.str "")
  return processName names (py.str pid)

/-- Schema 2 has the pipeline in `tid`, schema 1 names the process after it. -/
def eventPipeline (process : String) (event : Json F) : Except PyError String := do
  let tid ← event.get "tid" (.str "")
  return if py.upper process ∈ pipelineNames then process else py.str tid

def isComplete (event : Json F) : Except PyError Bool := do
  let ph ← event.get "ph" .null
  return ph.isStr "X"

/-- One turn of the loop of `load_trace`. -/
def loadEvent (names : List (String × String)) (event : Json F) (index : ℕ) :
    Except PyError (Option (Row F)) := do
  if ← isComplete event then
    let process ← eventProcess py names event
    let pipeline ← eventPipeline py process event
    match ← classifyEvent py event process pipeline with
    | none => return none
    | some kind =>
        let ts ← py.float (← event.get "ts" (.int 0))
        let dur ← py.float (← event.get "dur" (.int 0))
        let name ← event.get "name" (.str "")
        let bytes ← getProcessBytes py event
        let pc ← getArg event "pc_addr" (.str "")
        return some { index, ts, stop := py.add ts dur, dur, process, pipeline, name, kind, bytes,
                      pc }
  else return none

/-- The sort key `(ts, index)`. -/
def rowLt (a b : Row F) : Bool := if py.eq a.ts b.ts then a.index < b.index else py.lt a.ts b.ts

def loadTrace (events : List (Json F)) : Except PyError (List (Row F)) := do
  let names ← parseProcessNames py events
  let rows ← events.zipIdx.mapM fun (event, index) => loadEvent py names event index
  return (rows.filterMap id).mergeSort fun a b => !rowLt py b a

/-! ## The windows -/

/-- The last row of a kind before a position. -/
def previousEvent (rows : List (Row F)) (index : ℕ) (kind : Kind) : Option (Row F) :=
  (rows.take index).reverse.find? fun row => row.kind = kind

/-- A KKT load with the events that `analyze` compares it with. -/
structure KktWindow (F : Type) where
  kkt : Row F
  ready : Option (Row F)
  gCopy : Option (Row F)
  betaCopy : Option (Row F)
  factor : Option (Row F)

def kktWindows (rows : List (Row F)) : List (KktWindow F) :=
  rows.zipIdx.filterMap fun (row, index) =>
    if row.kind ≠ .kktMte2 then none
    else some
      { kkt := row
        ready := previousEvent rows index .aicReady
        gCopy := previousEvent rows index .gMte2
        betaCopy := previousEvent rows index .betaMte2
        factor := previousEvent rows index .factorVector }

end

variable {F : Type} {py : Python F} {names : List (String × String)} {event : Json F}

/-! ## What the cascade decides -/

/-- The sizes that the cascade takes for loads. -/
def isLoadSize (size : Option ℤ) : Prop := size = some 512 ∨ size = some 256 ∨ size = some 16384

section

variable {core : Core} {name detail code pipeline : String} {size : Option ℤ}

/-- **Load labels go by size alone**, on every pipeline of an AIV core. -/
theorem classify_isLoad_iff :
    (∃ kind, classify py core name detail code size pipeline = some kind ∧ kind.isLoad = true) ↔
      core = .aiv ∧ name ≠ "SET_CROSS_CORE" ∧ isLoadSize size := by
  by_cases hcore : core = .aiv
  · subst hcore
    by_cases hname : name = "SET_CROSS_CORE"
    · simp [classify, hname, Kind.isLoad]
    · by_cases h512 : size = some 512
      · simp [classify, hname, h512, Kind.isLoad, isLoadSize]
      by_cases h256 : size = some 256
      · simp [classify, hname, h256, Kind.isLoad, isLoadSize]
      by_cases h16384 : size = some 16384
      · simp [classify, hname, h16384, Kind.isLoad, isLoadSize]
      · simp only [classify, isLoadSize, hname, h512, h256, h16384]
        constructor
        · intro ⟨kind, hkind, hload⟩
          split_ifs at hkind <;> cases hkind <;> simp_all [Kind.isLoad]
        · simp
  · simp only [hcore, false_and, iff_false]
    intro ⟨kind, hkind, hload⟩
    simp only [classify, hcore, false_and, if_false] at hkind
    split_ifs at hkind <;> cases hkind <;> simp [Kind.isLoad] at hload

/-- **An MTE3 event of an AIV core is an output copy** unless its size is a load's or its
name a factor operation's. -/
theorem classify_output_iff (hname : name ≠ "SET_CROSS_CORE")
    (hpipe : py.upper pipeline = "MTE3") :
    classify py .aiv name detail code size pipeline = some .outputMte3 ↔
      ¬ isLoadSize size ∧ ¬ (startsWith name "V" = true ∧ factorName name = true) := by
  have h1 : ("MTE3" : String) ≠ "VECTOR" := by decide
  have h2 : ("MTE3" : String) ≠ "VEC" := by decide
  by_cases h512 : size = some 512
  · simp [classify, hname, h512, isLoadSize]
  by_cases h256 : size = some 256
  · simp [classify, hname, h256, isLoadSize]
  by_cases h16384 : size = some 16384
  · simp [classify, hname, h16384, isLoadSize]
  by_cases hfactor : startsWith name "V" = true ∧ factorName name = true
  · simp [classify, hname, h512, h256, h16384, hfactor]
  · simp [classify, hname, h512, h256, h16384, hpipe, h1, h2, hfactor, isLoadSize]

end

/-! ## What the loader reads of an event -/

/-- The loader reads these values of a complete event. -/
structure Reads (py : Python F) (names : List (String × String)) (event : Json F)
    (process pipeline name : String) (size : Option ℤ) : Prop where
  complete : isComplete event = .ok true
  process_eq : eventProcess py names event = .ok process
  pipeline_eq : eventPipeline py process event = .ok pipeline
  name_eq : eventName py event = .ok name
  size_eq : getProcessBytes py event = .ok size

variable {process pipeline name : String} {size : Option ℤ}

/-- The label of an event from what is read of it. -/
theorem Reads.classifyEvent (h : Reads py names event process pipeline name size)
    {kind : Option Kind} (hkind : classifyEvent py event process pipeline = .ok kind) :
    ∃ detail code,
      kind = classify py (classifyCore py process) name detail code size pipeline := by
  rw [Trace.classifyEvent] at hkind
  obtain ⟨name', hname, hkind⟩ := bind_ok hkind
  obtain ⟨detail, -, hkind⟩ := bind_ok hkind
  obtain ⟨code, -, hkind⟩ := bind_ok hkind
  obtain ⟨size', hsize, hkind⟩ := bind_ok hkind
  obtain rfl : name = name' := Except.ok.inj (h.name_eq.symm.trans hname)
  obtain rfl : size = size' := Except.ok.inj (h.size_eq.symm.trans hsize)
  exact ⟨_, _, (pure_ok hkind).symm⟩

/-- A turn of the loader that returned labels every complete event, and makes a row of it
when it has a label. -/
theorem loadEvent_ok {index : ℕ} {row : Option (Row F)}
    (h : loadEvent py names event index = .ok row) :
    (isComplete event = .ok false ∧ row = none) ∨
      ∃ process pipeline name size kind, Reads py names event process pipeline name size ∧
        classifyEvent py event process pipeline = .ok kind ∧
        (∀ r ∈ row, r.index = index ∧ r.process = process ∧ r.pipeline = pipeline) ∧
        row.map Row.kind = kind := by
  rw [loadEvent] at h
  obtain ⟨complete, hcomplete, h⟩ := bind_ok h
  cases complete with
  | false => exact Or.inl ⟨hcomplete, (pure_ok h).symm⟩
  | true =>
      rw [if_pos rfl] at h
      obtain ⟨process, hprocess, h⟩ := bind_ok h
      obtain ⟨pipeline, hpipeline, h⟩ := bind_ok h
      obtain ⟨kind, hkind, h⟩ := bind_ok h
      have hkind' := hkind
      rw [classifyEvent] at hkind'
      obtain ⟨name, hname, hkind'⟩ := bind_ok hkind'
      obtain ⟨_, -, hkind'⟩ := bind_ok hkind'
      obtain ⟨_, -, hkind'⟩ := bind_ok hkind'
      obtain ⟨size, hsize, -⟩ := bind_ok hkind'
      refine Or.inr ⟨process, pipeline, name, size, kind,
        ⟨hcomplete, hprocess, hpipeline, hname, hsize⟩, hkind, ?_⟩
      cases kind with
      | none => simp [← pure_ok h]
      | some kind =>
          obtain ⟨_, -, h⟩ := bind_ok h
          obtain ⟨_, -, h⟩ := bind_ok h
          obtain ⟨_, -, h⟩ := bind_ok h
          obtain ⟨_, -, h⟩ := bind_ok h
          obtain ⟨_, -, h⟩ := bind_ok h
          obtain ⟨_, -, h⟩ := bind_ok h
          obtain ⟨_, -, h⟩ := bind_ok h
          simp [← pure_ok h]

/-- **The rows are those of the events**, in some order. -/
theorem loadTrace_rows {events : List (Json F)} {rows : List (Row F)}
    (hnames : parseProcessNames py events = .ok names) (hrun : loadTrace py events = .ok rows) :
    (∀ index event, events[index]? = some event →
      ∃ row, loadEvent py names event index = .ok row ∧ ∀ r ∈ row, r ∈ rows) ∧
    ∀ row ∈ rows, ∃ event, events[row.index]? = some event ∧
      loadEvent py names event row.index = .ok (some row) := by
  rw [loadTrace] at hrun
  obtain ⟨names', hnames', hrun⟩ := bind_ok hrun
  obtain rfl : names = names' := Except.ok.inj (hnames.symm.trans hnames')
  obtain ⟨loaded, hloaded, hrun⟩ := bind_ok hrun
  obtain ⟨hmap, hall⟩ := mapM_ok hloaded
  have hmem : ∀ row, row ∈ rows ↔ some row ∈ loaded := by
    intro row
    rw [← pure_ok hrun]
    simp
  constructor
  · intro index event hevent
    have hzip : (event, index) ∈ events.zipIdx := List.mk_mem_zipIdx_iff_getElem?.mpr hevent
    refine ⟨_, hall _ hzip, fun r hr => (hmem r).mpr ?_⟩
    rw [hmap, ← hr]
    exact List.mem_map_of_mem hzip
  · intro row hrow
    have hin := (hmem row).mp hrow
    rw [hmap, List.mem_map] at hin
    obtain ⟨⟨event, index⟩, hzip, hvalue⟩ := hin
    have hload := hall _ hzip
    rw [hvalue] at hload
    have hindex : row.index = index := by
      rcases loadEvent_ok hload with ⟨-, hnone⟩ | ⟨_, _, _, _, _, -, -, hrow, -⟩
      · cases hnone
      · exact (hrow row rfl).1
    rw [hindex]
    exact ⟨event, List.mk_mem_zipIdx_iff_getElem?.mp hzip, hload⟩

/-- What is read of an event is determined. -/
theorem Reads.unique {process' pipeline' name' : String} {size' : Option ℤ}
    (h : Reads py names event process pipeline name size)
    (h' : Reads py names event process' pipeline' name' size') :
    process' = process ∧ pipeline' = pipeline ∧ name' = name ∧ size' = size := by
  obtain rfl : process' = process := Except.ok.inj (h'.process_eq.symm.trans h.process_eq)
  refine ⟨rfl, ?_, ?_, ?_⟩
  · exact Except.ok.inj (h'.pipeline_eq.symm.trans h.pipeline_eq)
  · exact Except.ok.inj (h'.name_eq.symm.trans h.name_eq)
  · exact Except.ok.inj (h'.size_eq.symm.trans h.size_eq)

/-- A row carries the label of its event. -/
theorem loadEvent_row {index : ℕ} {row : Row F}
    (h : loadEvent py names event index = .ok (some row)) :
    ∃ name size detail code, Reads py names event row.process row.pipeline name size ∧
      some row.kind =
        classify py (classifyCore py row.process) name detail code size row.pipeline := by
  rcases loadEvent_ok h with ⟨-, hnone⟩ | ⟨process, pipeline, name, size, kind, hreads, hkind,
    hrow, hmap⟩
  · cases hnone
  · obtain ⟨-, rfl, rfl⟩ := hrow row rfl
    obtain ⟨detail, code, hclass⟩ := hreads.classifyEvent hkind
    exact ⟨name, size, detail, code, hreads, hmap.trans hclass⟩

/-! ## Labels and pipelines -/

/-- Every window is around one of the rows, labelled as a KKT load. -/
theorem mem_kktWindows {rows : List (Row F)} {w : KktWindow F} (h : w ∈ kktWindows rows) :
    w.kkt ∈ rows ∧ w.kkt.kind = .kktMte2 := by
  simp only [kktWindows, List.mem_filterMap] at h
  obtain ⟨⟨row, index⟩, hzip, hw⟩ := h
  have hmem := List.mem_of_getElem? (List.mk_mem_zipIdx_iff_getElem?.mp hzip)
  split_ifs at hw with hkind
  · cases hw
    exact ⟨hmem, not_not.mp hkind⟩

/-- The labels respect the pipelines: load labels stand for MTE2 events only, every copy
of bytes on MTE3 by an AIV core is an output copy, and no window is around an event of
another pipeline than MTE2. -/
structure RespectsPipeline (py : Python F) (names : List (String × String))
    (events : List (Json F)) (rows : List (Row F)) : Prop where
  loads : ∀ row ∈ rows, row.kind.isLoad = true → py.upper row.pipeline = "MTE2"
  outputs : ∀ (index : ℕ) event, events[index]? = some event →
    ∀ process pipeline name n, Reads py names event process pipeline name (some n) →
      classifyCore py process = .aiv → name ≠ "SET_CROSS_CORE" →
      py.upper pipeline = "MTE3" → 0 < n →
      ∃ row ∈ rows, row.index = index ∧ row.kind = .outputMte3
  windows : ∀ w ∈ kktWindows rows, py.upper w.kkt.pipeline = "MTE2"

/-- Every complete event of an AIV core, other than the flags it sets, has a load's size
only on MTE2, and a factor operation's name on MTE3 only without bytes. -/
def SizesFitPipelines (py : Python F) (names : List (String × String))
    (events : List (Json F)) : Prop :=
  ∀ event ∈ events, ∀ process pipeline name size,
    Reads py names event process pipeline name size → classifyCore py process = .aiv →
    name ≠ "SET_CROSS_CORE" →
      (isLoadSize size → py.upper pipeline = "MTE2") ∧
      (py.upper pipeline = "MTE3" → (∃ n, size = some n ∧ 0 < n) →
        ¬ (startsWith name "V" = true ∧ factorName name = true))

section

variable {events : List (Json F)} {rows : List (Row F)}
  (hnames : parseProcessNames py events = .ok names) (hrun : loadTrace py events = .ok rows)

include hnames hrun

/-- An event with a label has a row with it. -/
theorem exists_row {index : ℕ} (hevent : events[index]? = some event)
    (hreads : Reads py names event process pipeline name size) :
    ∃ detail code, ∀ kind,
      classify py (classifyCore py process) name detail code size pipeline = some kind →
      ∃ row ∈ rows, row.index = index ∧ row.pipeline = pipeline ∧ row.kind = kind := by
  obtain ⟨row, hload, hmem⟩ := (loadTrace_rows hnames hrun).1 index event hevent
  rcases loadEvent_ok hload with ⟨hfalse, -⟩ | ⟨process', pipeline', name', size', label, hreads',
    hlabel, hrow, hmap⟩
  · cases hfalse.symm.trans hreads.complete
  · obtain ⟨rfl, rfl, rfl, rfl⟩ := hreads.unique hreads'
    obtain ⟨detail, code, hclass⟩ := hreads.classifyEvent hlabel
    refine ⟨detail, code, fun kind hkind => ?_⟩
    rw [hclass, hkind, Option.map_eq_some_iff] at hmap
    obtain ⟨r, hr, hrkind⟩ := hmap
    have hfields := hrow r hr
    exact ⟨r, hmem r hr, hfields.1, hfields.2.2, hrkind⟩

/-- A row carries the label of the event at its index. -/
theorem row_label {row : Row F} (hmem : row ∈ rows) :
    ∃ event name size detail code, events[row.index]? = some event ∧
      Reads py names event row.process row.pipeline name size ∧
      some row.kind =
        classify py (classifyCore py row.process) name detail code size row.pipeline := by
  obtain ⟨event, hevent, hload⟩ := (loadTrace_rows hnames hrun).2 row hmem
  obtain ⟨name, size, detail, code, hreads, hkind⟩ := loadEvent_row hload
  exact ⟨event, name, size, detail, code, hevent, hreads, hkind⟩

/-- Fitting sizes are enough. -/
theorem respectsPipeline_of_fit (hfit : SizesFitPipelines py names events) :
    RespectsPipeline py names events rows := by
  have hloads : ∀ row ∈ rows, row.kind.isLoad = true → py.upper row.pipeline = "MTE2" := by
    intro row hmem hload
    obtain ⟨event, name, size, detail, code, hevent, hreads, hkind⟩ :=
      row_label hnames hrun hmem
    obtain ⟨hcore, hname, hsize⟩ := classify_isLoad_iff.mp ⟨row.kind, hkind.symm, hload⟩
    exact (hfit event (List.mem_of_getElem? hevent) _ _ _ _ hreads hcore hname).1 hsize
  refine ⟨hloads, ?_, ?_⟩
  · intro index event hevent process pipeline name n hreads hcore hname hpipe hpos
    have hfits := hfit event (List.mem_of_getElem? hevent) _ _ _ _ hreads hcore hname
    have hsize : ¬ isLoadSize (some n) := by
      intro hsize
      have hmte2 := hfits.1 hsize
      rw [hpipe] at hmte2
      exact absurd hmte2 (by decide)
    obtain ⟨detail, code, hrow⟩ := exists_row hnames hrun hevent hreads
    rw [hcore] at hrow
    obtain ⟨row, hmem, hindex, -, hkind⟩ := hrow .outputMte3
      ((classify_output_iff hname hpipe).mpr ⟨hsize, hfits.2 hpipe ⟨n, rfl, hpos⟩⟩)
    exact ⟨row, hmem, hindex, hkind⟩
  · intro w hw
    obtain ⟨hmem, hkind⟩ := mem_kktWindows hw
    exact hloads w.kkt hmem (by rw [hkind]; rfl)

/-- They are also necessary. -/
theorem fit_of_respectsPipeline (h : RespectsPipeline py names events rows) :
    SizesFitPipelines py names events := by
  intro event hmem process pipeline name size hreads hcore hname
  obtain ⟨index, hevent⟩ := List.mem_iff_getElem?.mp hmem
  constructor
  · intro hsize
    obtain ⟨detail, code, hrow⟩ := exists_row hnames hrun hevent hreads
    obtain ⟨kind, hkind, hload⟩ : ∃ kind,
        classify py (classifyCore py process) name detail code size pipeline = some kind ∧
          kind.isLoad = true := classify_isLoad_iff.mpr ⟨hcore, hname, hsize⟩
    obtain ⟨row, hrowMem, -, rfl, rfl⟩ := hrow kind hkind
    exact h.loads row hrowMem hload
  · rintro hpipe ⟨n, rfl, hpos⟩
    obtain ⟨row, hrowMem, hindex, hkind⟩ :=
      h.outputs index event hevent process pipeline name n hreads hcore hname hpipe hpos
    obtain ⟨event', name', size', detail, code, hevent', hreads', hclass⟩ :=
      row_label hnames hrun hrowMem
    rw [hindex, hevent] at hevent'
    obtain rfl : event = event' := Option.some.inj hevent'
    obtain ⟨hp, hq, rfl, rfl⟩ := hreads.unique hreads'
    rw [hkind, hp, hq, hcore] at hclass
    exact ((classify_output_iff hname hpipe).mp hclass.symm).2

end

/-! ## One output copy -/

/-- A copy of `bytes` bytes to the output, on MTE3 of a vector core. -/
def outputCopy (bytes : ℤ) : Json ℤ :=
  .obj [("ph", .str "X"), ("pid", .str "core0.veccore0"), ("tid", .str "MTE3"),
    ("name", .str "MOV_UB_TO_OUT"), ("ts", .int 0), ("dur", .int 1),
    ("args", .obj [("process_bytes", .int bytes)])]

theorem outputCopy_reads (bytes : ℤ) :
    Reads plainPython [] (outputCopy bytes) "core0.veccore0" "MTE3" "MOV_UB_TO_OUT"
      (some bytes) := by
  have hname : plainPython.upper "MOV_UB_TO_OUT" = "MOV_UB_TO_OUT" := by decide
  exact ⟨rfl, rfl, rfl, congrArg Except.ok hname, rfl⟩

/-- **Labels do not respect pipelines for every trace**: a copy of one head's tile to the
output has the size of a KKT load and gets its label. -/
theorem not_respectsPipeline_always : ¬ ∀ (F : Type) (py : Python F) names events rows,
    parseProcessNames py events = .ok names → loadTrace py events = .ok rows →
    RespectsPipeline py names events rows := by
  intro hall
  have hnames : parseProcessNames plainPython [outputCopy 16384] = .ok [] := rfl
  obtain ⟨rows, hrun⟩ : ∃ rows, loadTrace plainPython [outputCopy 16384] = .ok rows := ⟨_, rfl⟩
  have hfit := fit_of_respectsPipeline hnames hrun (hall _ _ _ _ _ hnames hrun)
  have hmte2 := (hfit _ (by simp) _ _ _ _ (outputCopy_reads 16384) (by decide) (by decide)).1
    (Or.inr (Or.inr rfl))
  exact absurd hmte2 (by decide)

section

variable {events : List (Json F)} {rows : List (Row F)}
  (hnames : parseProcessNames py events = .ok names) (hrun : loadTrace py events = .ok rows)

include hnames hrun

/-- **When the labels respect the pipelines**: exactly when sizes and names fit them. -/
theorem respectsPipeline_iff :
    RespectsPipeline py names events rows ↔ SizesFitPipelines py names events := by
  constructor
  · exact fit_of_respectsPipeline hnames hrun
  · exact respectsPipeline_of_fit hnames hrun

end

/-- A copy of 4096 bytes to the output is labelled as one. -/
theorem respectsPipeline_outputCopy :
    ∃ rows, loadTrace plainPython [outputCopy 4096] = .ok rows ∧
      RespectsPipeline plainPython [] [outputCopy 4096] rows := by
  refine ⟨_, rfl, (respectsPipeline_iff rfl rfl).mpr ?_⟩
  intro event hmem process pipeline name size hreads hcore hname
  rw [List.mem_singleton] at hmem
  subst hmem
  obtain ⟨rfl, rfl, rfl, rfl⟩ := (outputCopy_reads 4096).unique hreads
  constructor
  · intro hsize
    rcases hsize with h | h | h <;> cases h
  · intro _ _
    decide

end ChunkScaledDotKkt.Trace
