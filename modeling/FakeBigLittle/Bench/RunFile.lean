import FakeBigLittle.Bench.Plan
import FakeBigLittle.Json.RoundTrip
import Mathlib.Data.Char
import Mathlib.Data.List.Find
import Mathlib.Data.List.Lex

/-!
# The file of a run

`record` of `scripts/bench.py` writes a run to a file, and `load_runs` of `scripts/analyze.py`
reads the directory. A run that is repeated takes the place of the one before.
-/

namespace FakeBigLittle

open CString
open Json (Py Floats Distinct)

variable {F : Type}

namespace Bench

/-! ## What a run is recorded as -/

-- `x`, or `None`
def orNone {α : Type} (f : α → Py F) : Option α → Py F
  | none => .none
  | some x => f x

/-- `self.env`, with what `go` adds to it. -/
structure Environment (F : Type) where
  kernel : Text
  cpuModel : Option Text
  nrCpus : Nat
  big : List Nat
  little : List Nat
  scalingDriver : Option Text
  governor : Option Text
  onAc : Option Bool
  /-- of each CPU -/
  eppAtStart : List Text
  idleFloor : Option F
  coolTarget : F

def cpus (l : List Nat) : Py F := .list (l.map fun c => .int c)

-- The keys of `saved_epp` are numbers, which `json.dump` writes as strings.
def eppItems (l : List Text) : List (Text × Py F) := l.zipIdx.map fun e => (str e.2, .str e.1)

def Environment.items (e : Environment F) : List (Text × Py F) :=
  [("kernel".toList, .str e.kernel), ("cpu_model".toList, orNone .str e.cpuModel),
    ("nr_cpus".toList, .int e.nrCpus), ("big_cpus".toList, cpus e.big),
    ("little_cpus".toList, cpus e.little),
    ("scaling_driver".toList, orNone .str e.scalingDriver),
    ("governor".toList, orNone .str e.governor), ("on_ac".toList, orNone .bool e.onAc),
    ("epp_at_start".toList, .dict (eppItems e.eppAtStart)),
    ("idle_floor_c".toList, orNone .float e.idleFloor),
    ("cool_target_c".toList, .float e.coolTarget)]

/-- The `factors` of each experiment. -/
inductive RunFactors where
  | e1Rail (epp : Text) (probeBig probeLittle : Nat)
  | e1bPoison (probeCpu : Nat) (othersEpp : Text)
  | e2Coupling (epp condition : Text) (cpus : Option Text)
  | e3Ab (factors : Factors)

def RunFactors.items : RunFactors → List (Text × Py F)
  | .e1Rail epp probeBig probeLittle =>
    [("epp".toList, .str epp), ("probe_big".toList, .int probeBig),
      ("probe_little".toList, .int probeLittle)]
  | .e1bPoison probeCpu othersEpp =>
    [("probe_cpu".toList, .int probeCpu), ("probe_epp".toList, .str "power".toList),
      ("others_epp".toList, .str othersEpp)]
  | .e2Coupling epp condition cpus =>
    [("epp".toList, .str epp), ("condition".toList, .str condition),
      ("cpus".toList, orNone .str cpus)]
  | .e3Ab factors =>
    [("sched".toList, .str (if factors.sched = .scx then "scx" else "eevdf").toList),
      ("epp".toList, .str (if factors.epp = .flat then "flat" else "partitioned").toList),
      ("strict".toList, .bool factors.strict)]

/-- The objects of the tools, as `json.loads` returns them: no key is there twice. -/
structure Slots (F : Type) where
  energy : Py F
  pinger : Py F
  spin : Py F
  bls : Py F
  partition : Py F
  distinct : ∀ v ∈ [energy, pinger, spin, bls, partition], Distinct v

structure RunRecord (F : Type) where
  job : Job
  factors : RunFactors
  timestamp : Text
  ok : Bool
  env : Environment F
  startTemp : Option F
  slots : Slots F
  notes : Text

-- `rec`
def RunRecord.items (r : RunRecord F) : List (Text × Py F) :=
  [("experiment".toList, .str r.job.experiment), ("arm".toList, .str r.job.arm),
    ("factors".toList, .dict r.factors.items), ("rep".toList, .int r.job.rep),
    ("timestamp".toList, .str r.timestamp), ("ok".toList, .bool r.ok),
    ("env".toList,
      .dict (Dict.setItem "start_temp_c".toList (orNone .float r.startTemp) r.env.items)),
    ("energy".toList, r.slots.energy), ("pinger".toList, r.slots.pinger),
    ("spin".toList, r.slots.spin), ("bls".toList, r.slots.bls),
    ("partition".toList, r.slots.partition), ("notes".toList, .str r.notes)]

/-- The files below `data/raw`, with their contents. -/
abbrev Files := Dict Text Text

-- `record`
def write (fl : Floats F) (raw : Text) (files : Files) (r : RunRecord F) : Files :=
  Dict.setItem (recordPath raw r.job) (Json.dumps fl 1 0 (.dict r.items)) files

/-- What a session leaves below `data/raw`. -/
inductive Wrote (F : Type) where
  /-- by `energy -o` -/
  | csv (job : Job) (text : Text)
  | run (r : RunRecord F)

def put (fl : Floats F) (raw : Text) (files : Files) : Wrote F → Files
  | .csv job text => Dict.setItem (csvPath raw job) text files
  | .run r => write fl raw files r

def Wrote.record? : Wrote F → Option (RunRecord F)
  | .csv .. => none
  | .run r => some r

def recorded (ws : List (Wrote F)) : List (RunRecord F) := ws.filterMap Wrote.record?

/-- The runs that are left, each at its path. -/
def latest (raw : Text) (rs : List (RunRecord F)) : Dict Text (RunRecord F) :=
  Dict.ofPairs (rs.map fun r => (recordPath raw r.job, r))

end Bench

namespace Analyze

/-! ## What is read -/

-- `fn.endswith(".json")`
def isRunFile (path : Text) : Bool := ".json".toList.isSuffixOf path

def findRunFiles (files : Bench.Files) : List (Text × Text) :=
  Dict.sortBy Prod.fst (files.filter fun e => isRunFile e.1)

/-- One file of `load_runs`; `exc` is the text of the `ValueError`. -/
def loadRun (fl : Floats F) (exc : Text → Text) (path content : Text) :
    Except Text (List (Text × Py F)) :=
  match Json.load fl content with
  | none => .error (exc content)
  | some (.dict items) => .ok (Dict.setItem "_file".toList (.str path) items)
  | some _ => .error "top level is not an object".toList

/-- The runs, and the files that are none with the reason. -/
def loadRuns (fl : Floats F) (exc : Text → Text) (files : Bench.Files) :
    List (List (Text × Py F)) × List (Text × Text) :=
  let read := (findRunFiles files).map fun e => (e.1, loadRun fl exc e.1 e.2)
  (read.filterMap fun r => r.2.toOption,
    read.filterMap fun r =>
      match r.2 with
      | .ok _ => none
      | .error error => some (r.1, error))

end Analyze

/-! ## The record is sound -/

namespace Bench

theorem distinct_orNone {α : Type} {f : α → Py F} (h : ∀ x, Distinct (f x)) (x : Option α) :
    Distinct (orNone f x) := by
  cases x with
  | none => exact .none
  | some x => exact h x

theorem distinct_cpus (l : List Nat) : Distinct (cpus l : Py F) := by
  refine .list fun v hv => ?_
  obtain ⟨c, -, rfl⟩ := List.mem_map.mp hv
  exact .int c

theorem distinct_eppItems (l : List Text) : Distinct (.dict (eppItems l) : Py F) := by
  refine .dict ?_ fun e he => ?_
  · have hkeys : Dict.keys (eppItems l : List (Text × Py F)) = (l.zipIdx.map Prod.snd).map str := by
      unfold Dict.keys eppItems
      rw [List.map_map, List.map_map]
      rfl
    rw [hkeys, List.zipIdx_map_snd]
    exact List.Nodup.map (fun _ _ => str_injective) List.nodup_range'
  · obtain ⟨p, -, rfl⟩ := List.mem_map.mp he
    exact .str _

theorem distinct_factors (f : RunFactors) : Distinct (.dict f.items : Py F) := by
  cases f with
  | e1Rail epp probeBig probeLittle =>
    have hkeys : ["epp".toList, "probe_big".toList, "probe_little".toList].Nodup := by decide
    refine .dict hkeys ?_
    simp only [RunFactors.items, List.forall_mem_cons]
    exact ⟨.str _, .int _, .int _, List.forall_mem_nil _⟩
  | e1bPoison probeCpu othersEpp =>
    have hkeys : ["probe_cpu".toList, "probe_epp".toList, "others_epp".toList].Nodup := by decide
    refine .dict hkeys ?_
    simp only [RunFactors.items, List.forall_mem_cons]
    exact ⟨.int _, .str _, .str _, List.forall_mem_nil _⟩
  | e2Coupling epp condition cpus =>
    have hkeys : ["epp".toList, "condition".toList, "cpus".toList].Nodup := by decide
    refine .dict hkeys ?_
    simp only [RunFactors.items, List.forall_mem_cons]
    exact ⟨.str _, .str _, distinct_orNone .str _, List.forall_mem_nil _⟩
  | e3Ab factors =>
    have hkeys : ["sched".toList, "epp".toList, "strict".toList].Nodup := by decide
    refine .dict hkeys ?_
    simp only [RunFactors.items, List.forall_mem_cons]
    exact ⟨.str _, .str _, .bool _, List.forall_mem_nil _⟩

/-- The names that `self.env` has. -/
def Environment.names : List Text :=
  ["kernel", "cpu_model", "nr_cpus", "big_cpus", "little_cpus", "scaling_driver", "governor",
    "on_ac", "epp_at_start", "idle_floor_c", "cool_target_c"].map String.toList

/-- The names of a record. -/
def RunRecord.names : List Text :=
  ["experiment", "arm", "factors", "rep", "timestamp", "ok", "env", "energy", "pinger", "spin",
    "bls", "partition", "notes"].map String.toList

theorem Environment.keys_items (e : Environment F) : Dict.keys e.items = names := rfl

theorem RunRecord.keys_items (r : RunRecord F) : Dict.keys r.items = names := rfl

theorem distinct_environment (e : Environment F) (startTemp : Option F) :
    Distinct (.dict (Dict.setItem "start_temp_c".toList (orNone .float startTemp) e.items)) := by
  have hnames : Environment.names.Nodup := by decide
  have hall : ∀ item ∈ e.items, Distinct item.2 := by
    simp only [Environment.items, List.forall_mem_cons]
    exact ⟨.str _, distinct_orNone .str _, .int _, distinct_cpus _, distinct_cpus _,
      distinct_orNone .str _, distinct_orNone .str _, distinct_orNone .bool _,
      distinct_eppItems _, distinct_orNone .float _, .float _, List.forall_mem_nil _⟩
  refine .dict (Dict.nodup_setItem (by rwa [e.keys_items]) ..) fun item hitem => ?_
  rcases Dict.mem_setItem hitem with rfl | hitem
  · exact distinct_orNone .float _
  · exact hall item hitem

/-- No dictionary of a record has a key twice. -/
theorem distinct_record (r : RunRecord F) : Distinct (.dict r.items) := by
  have hnames : RunRecord.names.Nodup := by decide
  have hslots := r.slots.distinct
  simp only [List.forall_mem_cons] at hslots
  obtain ⟨henergy, hpinger, hspin, hbls, hpartition, -⟩ := hslots
  refine .dict (by rwa [r.keys_items]) ?_
  simp only [RunRecord.items, List.forall_mem_cons]
  exact ⟨.str _, .str _, distinct_factors _, .int _, .str _, .bool _,
    distinct_environment _ _, henergy, hpinger, hspin, hbls, hpartition, .str _,
    List.forall_mem_nil _⟩

/-! ## The directory after a session -/

theorem join_suffix {a b s : Text} (h : s <:+ b) : s <:+ join a b := by
  unfold join
  split_ifs
  · exact h
  · exact h.trans (List.suffix_append a b)
  · exact h.trans ((List.suffix_cons '/' b).trans (List.suffix_append a _))

theorem runPath_suffix (raw ext : Text) (job : Job) : '.' :: ext <:+ runPath raw ext job :=
  join_suffix (List.suffix_append ..)

theorem recordPath_isRunFile (raw : Text) (job : Job) :
    Analyze.isRunFile (recordPath raw job) = true :=
  List.isSuffixOf_iff_suffix.mpr (runPath_suffix raw "json".toList job)

theorem csvPath_not_isRunFile (raw : Text) (job : Job) :
    Analyze.isRunFile (csvPath raw job) = false := by
  have hlast : ∀ {s t : Text}, s <:+ t → s ≠ [] → t.getLast? = s.getLast? := by
    rintro s t ⟨u, rfl⟩ hs
    exact List.getLast?_append_of_ne_nil u hs
  refine Bool.eq_false_iff.mpr fun h => ?_
  have hjson := hlast (List.isSuffixOf_iff_suffix.mp h) (by decide)
  have hcsv := hlast (runPath_suffix raw "csv".toList job) (by decide)
  rw [csvPath, hcsv] at hjson
  exact absurd hjson (by decide)

section Session

variable (fl : Floats F) (raw : Text)

/-- The text that a record is written as. -/
def text (r : RunRecord F) : Text := Json.dumps fl 1 0 (.dict r.items)

/-- What is written changes the run files by its record, if it is one. -/
theorem filter_put (files : Files) (w : Wrote F) :
    (put fl raw files w).filter (fun e => Analyze.isRunFile e.1) =
      (w.record?.elim id fun r => Dict.setItem (recordPath raw r.job) (text fl r))
        (files.filter fun e => Analyze.isRunFile e.1) := by
  cases w with
  | csv job t => exact Dict.filter_setItem_of_neg (csvPath_not_isRunFile raw job) t files
  | run r => exact Dict.filter_setItem_of_pos (recordPath_isRunFile raw r.job) (text fl r) files

/-- After any writes, the run files are the latest records. -/
theorem filter_writes (ws : List (Wrote F)) {before : Files}
    (hbefore : ∀ e ∈ before, Analyze.isRunFile e.1 = false) :
    (ws.foldl (put fl raw) before).filter (fun e => Analyze.isRunFile e.1) =
      Dict.mapValues (text fl) (latest raw (recorded ws)) := by
  unfold latest
  rw [Dict.mapValues_ofPairs]
  induction ws using List.reverseRecOn with
  | nil =>
    refine List.filter_eq_nil_iff.mpr fun e he => ?_
    rw [hbefore e he]
    exact Bool.false_ne_true
  | append_singleton ws w ih =>
    rw [List.foldl_append, List.foldl_cons, List.foldl_nil, filter_put, ih]
    unfold recorded
    rw [List.filterMap_append]
    cases w with
    | csv job t => rw [show [Wrote.csv job t].filterMap (Wrote.record? (F := F)) = [] from rfl,
        List.append_nil]; rfl
    | run r =>
      unfold Dict.mapValues Dict.ofPairs
      rw [List.map_append, List.map_append, List.foldl_append]
      rfl

variable {fl}

theorem loadRun_text (exc : Text → Text) (path : Text) (r : RunRecord F) :
    Analyze.loadRun fl exc path (text fl r) =
      .ok (Json.reloadItems fl r.items ++ [("_file".toList, .str path)]) := by
  have hfile : "_file".toList ∉ Dict.keys (Json.reloadItems fl r.items) := by
    rw [Json.keys_reloadItems, r.keys_items]
    decide
  unfold Analyze.loadRun text
  rw [Json.load_dumps (distinct_record r) 1 0, Json.reload]
  exact congrArg Except.ok (Dict.setItem_new hfile _)

theorem loadRuns_writes (exc : Text → Text) (ws : List (Wrote F)) {before : Files}
    (hbefore : ∀ e ∈ before, Analyze.isRunFile e.1 = false) :
    Analyze.loadRuns fl exc (ws.foldl (put fl raw) before) =
      ((Dict.sortBy Prod.fst (latest raw (recorded ws))).map fun e =>
        Json.reloadItems fl e.2.items ++ [("_file".toList, .str e.1)], []) := by
  have hfiles : Analyze.findRunFiles (ws.foldl (put fl raw) before) =
      (Dict.sortBy Prod.fst (latest raw (recorded ws))).map fun e => (e.1, text fl e.2) := by
    unfold Analyze.findRunFiles
    rw [filter_writes fl raw ws hbefore]
    exact Dict.sortBy_mapValues ..
  unfold Analyze.loadRuns
  simp only [hfiles, List.map_map, List.filterMap_map, Function.comp_def, loadRun_text,
    Except.toOption]
  simp

theorem get_latest (raw : Text) (rs : List (RunRecord F)) (path : Text) :
    Dict.get (latest raw rs) path = rs.reverse.find? fun r => recordPath raw r.job = path := by
  unfold latest
  rw [Dict.get_ofPairs, ← List.map_reverse, List.find?_map, Option.map_map]
  exact congrFun Option.map_id _

theorem recordPath_of_latest {rs : List (RunRecord F)} {path : Text} {r : RunRecord F}
    (h : Dict.get (latest raw rs) path = some r) : recordPath raw r.job = path := by
  rw [get_latest] at h
  simpa using List.find?_some h

/-- The file of a run holds its latest record, whatever it held before. -/
theorem get_writes (ws : List (Wrote F)) (before : Files) {path : Text} {r : RunRecord F}
    (h : Dict.get (latest raw (recorded ws)) path = some r) :
    Dict.get (ws.foldl (put fl raw) before) path = some (text fl r) := by
  obtain rfl := recordPath_of_latest raw h
  rw [get_latest] at h
  induction ws using List.reverseRecOn with
  | nil => cases h
  | append_singleton ws w ih =>
    rw [List.foldl_append, List.foldl_cons, List.foldl_nil]
    unfold recorded at h
    rw [List.filterMap_append, List.reverse_append] at h
    cases w with
    | csv job t =>
      rw [put, Dict.get_setItem, if_neg, ih h]
      intro hpath
      have hjson := recordPath_isRunFile raw r.job
      rw [hpath, csvPath_not_isRunFile] at hjson
      exact Bool.noConfusion hjson
    | run r' =>
      rw [show [Wrote.run r'].filterMap Wrote.record? = [r'] from rfl, List.reverse_singleton,
        List.singleton_append, List.find?_cons] at h
      rw [put, write, Dict.get_setItem]
      split_ifs with hpath
      · rw [decide_eq_true hpath.symm] at h
        rw [← Option.some.inj h]
        rfl
      · rw [decide_eq_false (Ne.symm hpath)] at h
        exact ih h

theorem mem_loadRuns_writes (exc : Text → Text) (ws : List (Wrote F)) (before : Files)
    {path : Text} {r : RunRecord F}
    (h : Dict.get (latest raw (recorded ws)) path = some r) :
    Json.reloadItems fl r.items ++ [("_file".toList, .str path)] ∈
      (Analyze.loadRuns fl exc (ws.foldl (put fl raw) before)).1 := by
  have hpath : Analyze.isRunFile path = true := by
    rw [← recordPath_of_latest raw h]
    exact recordPath_isRunFile raw r.job
  have hfile : (path, text fl r) ∈ Analyze.findRunFiles (ws.foldl (put fl raw) before) :=
    (Dict.sortBy_perm ..).mem_iff.mpr
      (List.mem_filter.mpr ⟨Dict.mem_of_get (get_writes raw ws before h), hpath⟩)
  refine List.mem_filterMap.mpr ⟨_, List.mem_map_of_mem hfile, ?_⟩
  simp only [loadRun_text]
  rfl

/-- Where the names are plain, the file of a job is its own. -/
theorem get_latest_job (raw : Text) {rs : List (RunRecord F)} (hplain : ∀ r ∈ rs, Plain r.job)
    {job : Job} (hjob : Plain job) :
    Dict.get (latest raw rs) (recordPath raw job) = rs.reverse.find? fun r => r.job = job := by
  have hjson : '.' ∉ "json".toList ∧ '/' ∉ "json".toList := by decide
  rw [get_latest]
  refine List.find?_congr fun r hr => decide_eq_decide.mpr ⟨fun h => ?_, fun h => by rw [h]⟩
  exact (runPath_injective hjson hjson (hplain r (List.mem_reverse.mp hr)) hjob h).1

/-- **What a session records is what the analysis loads.** Of the runs of one arm and repetition
the last counts, nothing is an error, and a record of numbers comes back as it was. -/
theorem session_comes_back (exc : Text → Text) (ws : List (Wrote F)) {before : Files}
    (hbefore : ∀ e ∈ before, Analyze.isRunFile e.1 = false) :
    Analyze.loadRuns fl exc (ws.foldl (put fl raw) before) =
        ((Dict.sortBy Prod.fst (latest raw (recorded ws))).map fun e =>
          Json.reloadItems fl e.2.items ++ [("_file".toList, .str e.1)], []) ∧
      (∀ path, Dict.get (latest raw (recorded ws)) path =
        (recorded ws).reverse.find? fun r => recordPath raw r.job = path) ∧
      ((∀ r ∈ recorded ws, Plain r.job) → ∀ job, Plain job →
        Dict.get (latest raw (recorded ws)) (recordPath raw job) =
          (recorded ws).reverse.find? fun r => r.job = job) ∧
      ∀ r : RunRecord F, Json.AllFinite fl (.dict r.items) →
        Json.reloadItems fl r.items = r.items := by
  refine ⟨loadRuns_writes raw exc ws hbefore, get_latest raw _,
    fun hplain job hjob => get_latest_job raw hplain hjob, fun r hr => ?_⟩
  have hreload := Json.reload_of_finite hr
  rw [Json.reload] at hreload
  exact Json.Py.dict.inj hreload

end Session

/-- A run of which all numbers are `x`. -/
def RunRecord.ofFloat (x : F) (rep : Nat) (notes : Text) : RunRecord F where
  job := ⟨"e1-rail".toList, "partitioned".toList, rep⟩
  factors := .e1Rail "partitioned".toList 0 2
  timestamp := "2026-01-01T00:00:00+0000".toList
  ok := true
  env :=
    { kernel := "6.12".toList, cpuModel := none, nrCpus := 4, big := [0, 1], little := [2, 3],
      scalingDriver := none, governor := none, onAc := some true, eppAtStart := [],
      idleFloor := some x, coolTarget := x }
  startTemp := some x
  slots := ⟨.dict [("pkg_j".toList, .float x)], .none, .none, .none, .none, by
    simp only [List.forall_mem_cons]
    refine ⟨.dict (List.nodup_singleton _) ?_, .none, .none, .none, .none, List.forall_mem_nil _⟩
    simp only [List.forall_mem_cons]
    exact ⟨.float x, List.forall_mem_nil _⟩⟩
  notes := notes

/-- The floats that are 1.5. -/
def oneAndAHalf : Floats Unit where
  finite _ := true
  repr _ := "1.5".toList
  parse _ := ()
  isFloat _ _ := ⟨false, 1, ".5".toList, [], rfl, by decide,
    Or.inr ⟨['5'], by decide, List.all_eq_true.mp rfl, rfl⟩, Or.inl rfl⟩
  parse_repr _ _ := rfl
  special _ h := absurd h (by decide)

theorem session_comes_back_repeated :
    (Analyze.loadRuns oneAndAHalf id
      ([.csv ⟨"e1-rail".toList, "partitioned".toList, 0⟩ "t_s,pkg_w".toList,
        .run (.ofFloat () 0 "first".toList), .run (.ofFloat () 0 "again".toList)].foldl
          (put oneAndAHalf "data/raw".toList) [])).1.length = 1 ∧
    Dict.get (latest "data/raw".toList
      [RunRecord.ofFloat () 0 "first".toList, .ofFloat () 0 "again".toList])
        (recordPath "data/raw".toList ⟨"e1-rail".toList, "partitioned".toList, 0⟩) =
      some (.ofFloat () 0 "again".toList) := by
  obtain ⟨hloaded, -, hlast, -⟩ := @session_comes_back _ oneAndAHalf "data/raw".toList id
    [.csv ⟨"e1-rail".toList, "partitioned".toList, 0⟩ "t_s,pkg_w".toList,
      .run (.ofFloat () 0 "first".toList), .run (.ofFloat () 0 "again".toList)]
    [] (List.forall_mem_nil _)
  have hplain : Plain ⟨"e1-rail".toList, "partitioned".toList, 0⟩ :=
    ⟨by decide, by decide, by decide⟩
  refine ⟨?_, hlast ?_ _ hplain⟩
  · rw [hloaded, List.length_map, (Dict.sortBy_perm ..).length_eq]
    rfl
  · intro r hr
    rcases List.mem_cons.mp hr with rfl | hr
    · exact hplain
    · obtain rfl := List.mem_singleton.mp hr
      exact hplain

end Bench

end FakeBigLittle
