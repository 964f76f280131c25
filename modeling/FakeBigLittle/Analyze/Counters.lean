import FakeBigLittle.Analyze.CrossShare
import FakeBigLittle.Bench.RunFile
import FakeBigLittle.Loader.Report

/-!
# From the scheduler to the table

The counters that bls prints last go through the pipe, the record and its file into the columns
of the analysis, and are the same numbers there.
-/

namespace FakeBigLittle

open CString Runs
open Json (Py Floats Value)
open Bench (ToolSlots RunRecord Wrote Files)

variable {F : Type}

namespace Analyze

/-! ## Numbers -/

/-- The floats as numbers: `float()` of an integer and of a text. -/
structure Numbers (F : Type) extends Floats F where
  value : F → ℚ
  ofInt : Int → F
  ofText : Text → Option F
  ofInt_exact : ∀ i, i.natAbs ≤ 2 ^ 53 → finite (ofInt i) = true ∧ value (ofInt i) = i

variable (nf : Numbers F)

-- neither a NaN nor an infinity
def finiteValue (x : F) : Option ℚ := if nf.finite x then some (nf.value x) else none

def num : Py F → Option ℚ
  | .int i => finiteValue nf (nf.ofInt i)
  | .float x => finiteValue nf x
  | .str t => (nf.ofText t).bind (finiteValue nf)
  | .none | .bool _ | .list _ | .dict _ => none

/-- The items of an object that are numbers. -/
def numbers (items : List (Text × Py F)) : List (Text × ℚ) :=
  items.filterMap fun e => (num nf e.2).map fun x => (e.1, x)

-- `run.get("bls")`, if it is a dict
def blsOf (run : List (Text × Py F)) : Option (List (Text × ℚ)) :=
  match Dict.get run "bls".toList with
  | some (.dict items) => some (numbers nf items)
  | _ => none

/-- The columns of a run that is loaded. -/
def blsColumns (run : List (Text × Py F)) : BlsColumns := flattenBls (blsOf nf run)

variable {nf}

/-- `num(d.get(k))` -/
theorem lookup_numbers {items : List (Text × Py F)} (h : (Dict.keys items).Nodup) (k : Text) :
    (numbers nf items).lookup k = (Dict.get items k).bind (num nf) := by
  unfold numbers Dict.get
  induction items with
  | nil => rfl
  | cons e items ih =>
    obtain ⟨hnew, hrest⟩ := List.nodup_cons.mp h
    have hfind := ih hrest
    by_cases hk : e.1 = k
    · subst hk
      have hnone : items.find? (fun e' => decide (e'.1 = e.1)) = none := by
        rw [List.find?_eq_none]
        intro e' he' heq
        exact hnew (of_decide_eq_true heq ▸ List.mem_map_of_mem he')
      rw [hnone] at hfind
      cases hv : num nf e.2 with
      | none => simpa [hv] using hfind
      | some x => simp [hv]
    · have hbeq : (k == e.1) = false := beq_false_of_ne (Ne.symm hk)
      cases hv : num nf e.2 with
      | none => simpa [hv, hk] using hfind
      | some x => simpa [hv, hk, List.lookup_cons, hbeq] using hfind

theorem num_nat {n : Nat} (h : n ≤ 2 ^ 53) : num nf (.int n) = some (n : ℚ) := by
  obtain ⟨hfinite, hvalue⟩ := nf.ofInt_exact n (by simpa using h)
  have hnum : num nf (.int n) = finiteValue nf (nf.ofInt n) := rfl
  rw [hnum, finiteValue, if_pos hfinite, hvalue]
  rfl

/-! ## The record of the scheduler -/

/-- What the harness has of a line of counters. -/
def statsItems (fl : Floats F) (elapsed : ℚ) (c : Stat → UInt64) : List (Text × Py F) :=
  ("event".toList, .str "stats".toList) ::
    ("elapsed_s".toList, .float (fl.parse (Decimal.fixed 3 elapsed))) ::
    blsStats.map fun i => (i.name, .int (c i).toNat)

-- `slots.get(k)`
def slotPy (fl : Floats F) : Option Value → Option (Py F)
  | none => some .none
  | some v => Json.toPy fl v

variable {fl : Floats F}

theorem toPy_nat (n : Nat) : Json.toPy fl (.num (Printf.nat n)) = some (.int n) := by
  have hint : Printf.nat n = Printf.int n := by simp [Printf.int, Printf.nat, Json.sign]
  rw [hint, Json.toPy, Json.int_not_float, Json.readInt_int]
  rfl

/-- Members with names that are not escaped. -/
theorem toPyItems_map {ι : Type} {l : List ι} {f : ι → Text} {v : ι → Value} {w : ι → Py F}
    (hname : ∀ i ∈ l, Json.unescape (f i) = some (f i))
    (hvalue : ∀ i ∈ l, Json.toPy fl (v i) = some (w i)) (items : List (Text × Py F))
    (ms : List (Text × Value)) (hrest : Json.toPyItems fl ms = some items) :
    Json.toPyItems fl (l.map (fun i => (f i, v i)) ++ ms) =
      some (l.map (fun i => (f i, w i)) ++ items) := by
  induction l with
  | nil => exact hrest
  | cons i l ih =>
    obtain ⟨hn, hnames⟩ := List.forall_mem_cons.mp hname
    obtain ⟨hv, hvalues⟩ := List.forall_mem_cons.mp hvalue
    rw [List.map_cons, List.cons_append, Json.toPyItems, hn, Option.bind_some, hv,
      Option.bind_some, ih hnames hvalues]
    rfl

/-- The names of the counters, with the two before them. -/
def statsNames : List Text := "event".toList :: "elapsed_s".toList :: blsStats.map Stat.name

theorem keys_statsItems (elapsed : ℚ) (c : Stat → UInt64) :
    Dict.keys (statsItems fl elapsed c) = statsNames := rfl

theorem toPy_stats (elapsed : ℚ) (c : Stat → UInt64) :
    Json.toPy fl (statsValue elapsed c) = some (.dict (statsItems fl elapsed c)) := by
  have hfloat : Json.isFloatText (Decimal.fixed 3 elapsed) = true := by
    unfold Json.isFloatText Decimal.fixed
    simp
  have hcounters : Json.toPyItems fl
      (blsStats.map (fun i => (i.name, .num (Printf.nat (c i).toNat))) ++ []) =
        some (blsStats.map (fun i => (i.name, .int (c i).toNat)) ++ []) :=
    toPyItems_map (by decide) (fun i _ => toPy_nat _) [] [] rfl
  rw [List.append_nil, List.append_nil] at hcounters
  have hitems : Json.toPyItems fl (("event".toList, .str "stats".toList) ::
      ("elapsed_s".toList, .num (Decimal.fixed 3 elapsed)) ::
      blsStats.map fun i => (i.name, .num (Printf.nat (c i).toNat))) =
        some (statsItems fl elapsed c) := by
    rw [Json.toPyItems, Json.toPyItems, hcounters, Json.toPy, Json.toPy, if_pos hfloat]
    rfl
  have hnames : statsNames.Nodup := by decide
  rw [statsValue, Json.toPy, hitems, Option.map_some,
    Dict.ofPairs_of_nodup (by rwa [keys_statsItems])]

/-- The columns depend on six of the counters. -/
theorem flattenBls_congr {a b : List (Text × ℚ)}
    (h : ∀ i ∈ [Stat.enq, .dsqBig, .dsqLittle, .steal, .runBigMs, .runLittleMs],
      a.lookup i.name = b.lookup i.name) : flattenBls (some a) = flattenBls (some b) := by
  have henq : a.lookup "enqueue".toList = b.lookup "enqueue".toList := h .enq (by simp)
  have hbig : a.lookup "dsq_big".toList = b.lookup "dsq_big".toList := h .dsqBig (by simp)
  have hlittle : a.lookup "dsq_little".toList = b.lookup "dsq_little".toList :=
    h .dsqLittle (by simp)
  have hsteal : a.lookup "cross_domain".toList = b.lookup "cross_domain".toList :=
    h .steal (by simp)
  have hrunBig : a.lookup "run_big_ms".toList = b.lookup "run_big_ms".toList :=
    h .runBigMs (by simp)
  have hrunLittle : a.lookup "run_little_ms".toList = b.lookup "run_little_ms".toList :=
    h .runLittleMs (by simp)
  unfold flattenBls
  simp only [Option.getD_some, Option.isSome_some, henq, hbig, hlittle, hsteal, hrunBig,
    hrunLittle]

theorem mem_blsStats (i : Stat) : i ∈ blsStats := by
  cases i <;> decide

/-- The counters in a record that has been loaded. -/
theorem lookup_stats {nf : Numbers F} (elapsed : ℚ) {c : Stat → UInt64} {i : Stat}
    (hi : (c i).toNat ≤ 2 ^ 53) :
    (numbers nf (Json.reloadItems nf.toFloats (statsItems nf.toFloats elapsed c))).lookup i.name =
      some ((c i).toNat : ℚ) := by
  have hnames : statsNames.Nodup := by decide
  have hkeys : (Dict.keys (statsItems nf.toFloats elapsed c)).Nodup := by rwa [keys_statsItems]
  have hmem : (i.name, Py.int (c i).toNat) ∈ statsItems nf.toFloats elapsed c :=
    List.mem_cons_of_mem _ (List.mem_cons_of_mem _
      (List.mem_map_of_mem (f := fun i => (i.name, Py.int (c i).toNat)) (mem_blsStats i)))
  rw [lookup_numbers (by rwa [Json.keys_reloadItems]), Json.reloadItems_eq, Dict.get_mapValues,
    (Dict.get_eq_some hkeys).mpr hmem]
  exact num_nat hi

/-- What is loaded of a record, with its file. -/
theorem get_loaded (fl : Floats F) (r : RunRecord F) (path : Text) :
    Dict.get (Json.reloadItems fl r.items ++ [("_file".toList, .str path)]) "_file".toList =
        some (.str path) ∧
      Dict.get (Json.reloadItems fl r.items ++ [("_file".toList, .str path)]) "bls".toList =
        some (Json.reload fl r.slots.bls) := by
  have hfile : Dict.get r.items "_file".toList = none := rfl
  have hbls : Dict.get r.items "bls".toList = some r.slots.bls := rfl
  rw [Dict.get_append, Dict.get_append, Json.reloadItems_eq, Dict.get_mapValues,
    Dict.get_mapValues, hfile, hbls]
  exact ⟨rfl, rfl⟩

/-- What the harness has of bls, whatever the other tools print before. -/
theorem slot_of_stdout {ps : List Printed} (hsound : ∀ p ∈ ps, p.Sound) {elapsed : ℚ}
    {c : Stat → UInt64} (hstats : lastOf statsOf ps = some (statsValue elapsed c)) (pre : Text) :
    slotPy fl (Bench.classify (Bench.collectJson (pre ++ '\n' :: stdout ps))).bls =
      some (.dict (statsItems fl elapsed c)) := by
  have hcollect := collectJson_stdout hsound []
  rw [List.append_nil, show Bench.collectJson [] = [] from rfl, List.append_nil] at hcollect
  rw [Bench.collectJson_newline, hcollect, Bench.classify, List.foldl_append, foldl_slot, hstats]
  exact toPy_stats elapsed c

/-- **The counters are the same numbers in the table.** Whatever the other tools print before, if
bls ends well and the counters of its last line are exact as floats, then they are what the
columns of the run are computed from, once the record has been written, loaded and flattened. -/
theorem counters_reach_table (nf : Numbers F) (exc : Text → Text) (raw path pre : Text)
    (o : Options) (n : Nat) (s t : Loader) (es : List LoaderEvent) (hstart : s.Start)
    (hout : s.out = []) (hbig : Unescaped o.eppBig) (hlittle : Unescaped o.eppLittle)
    (hrun : run (mainStep o n) s es = some t) (hpc : t.pc = .exited 0) (hdry : o.dryRun = false)
    (ps : List Printed) (hps : ps.map Printed.kind = t.out)
    (hexact : ∀ elapsed c, ps.getLast? = some (.stats elapsed c) → ∀ i, (c i).toNat ≤ 2 ^ 53)
    (r : RunRecord F) (hslot : slotPy nf.toFloats
      (Bench.classify (Bench.collectJson (pre ++ '\n' :: stdout ps))).bls = some r.slots.bls)
    (ws : List (Wrote F)) (before : Files)
    (hlatest : Dict.get (Bench.latest raw (Bench.recorded ws)) path = some r) :
    ∃ elapsed c, ps.getLast? = some (.stats elapsed c) ∧
      ∃ run ∈ (loadRuns nf.toFloats exc (ws.foldl (Bench.put nf.toFloats raw) before)).1,
        Dict.get run "_file".toList = some (.str path) ∧
        blsColumns nf run =
          flattenBls (some (blsStats.map fun i => (i.name, ((c i).toNat : ℚ)))) := by
  have h := output_run hstart hout hrun
  obtain ⟨elapsed, c, hlast, hstats, -⟩ := output_ends h hpc hdry hps
  have hexact := hexact elapsed c hlast
  -- in the slot
  rw [slot_of_stdout (printed_sound hbig hlittle h hps) hstats, Option.some.injEq] at hslot
  -- in the file
  obtain ⟨hfile, hbls⟩ := get_loaded nf.toFloats r path
  refine ⟨elapsed, c, hlast, _, Bench.mem_loadRuns_writes raw exc ws before hlatest, hfile, ?_⟩
  -- in the table
  rw [← hslot, Json.reload] at hbls
  unfold blsColumns blsOf
  simp only [hbls]
  refine flattenBls_congr fun i hi => ?_
  rw [lookup_stats elapsed (hexact i)]
  cases i <;> rfl

/-- The floats that are integers. -/
def integers : Numbers Int where
  finite _ := true
  repr i := Printf.int i ++ ".0".toList
  parse t := Json.readInt (t.takeWhile (· ≠ '.'))
  isFloat i _ := ⟨i < 0, i.natAbs, ".0".toList, [], by simp [Printf.int, List.append_assoc],
    by decide, Or.inr ⟨['0'], by decide, List.all_eq_true.mp rfl, rfl⟩, Or.inl rfl⟩
  parse_repr i _ := by
    have hchars : ∀ c ∈ Printf.int i, c ≠ '.' := by
      rintro c hc rfl
      rcases Printf.int_chars hc with h | h
      · exact absurd h (by decide)
      · exact absurd h (by decide)
    have hdot : ".0".toList = '.' :: ['0'] := rfl
    rw [hdot, List.takeWhile_append_of_pos (by simpa using hchars), List.takeWhile_cons_of_neg
      (by simp), List.append_nil, Json.readInt_int]
  special _ h := Bool.noConfusion h
  value i := i
  ofInt i := i
  ofText _ := none
  ofInt_exact _ _ := ⟨rfl, rfl⟩

/-- Two seconds, and 7 of everything. -/
def sevens : RunRecord Int :=
  { RunRecord.ofFloat 50 0 [] with
    slots := ⟨.none, .none, .none, .dict (statsItems integers.toFloats 2 fun _ => 7), .none, by
      simp only [List.forall_mem_cons]
      exact ⟨.none, .none, .none, Json.distinct_toPy (toPy_stats 2 fun _ => 7), .none,
        List.forall_mem_nil _⟩⟩ }

theorem counters_reach_table_sevens :
    ∃ run ∈ (loadRuns integers.toFloats id
        ([.run sevens].foldl (Bench.put integers.toFloats "data/raw".toList) [])).1,
      blsColumns integers run = flattenBls (some (blsStats.map fun i => (i.name, 7))) := by
  have hsound : ∀ p ∈ [Printed.partition [⟨0, 0, .little, "power".toList, some 128, some 0⟩],
      .attached, .stats 2 fun _ => 7], p.Sound := by
    simp only [List.forall_mem_cons, Printed.Sound]
    exact ⟨⟨⟨rfl, rfl⟩, List.forall_mem_nil _⟩, trivial, trivial, List.forall_mem_nil _⟩
  obtain ⟨elapsed, c, hlast, run, hmem, -, hcolumns⟩ := counters_reach_table integers id
    "data/raw".toList "data/raw/e1-rail/partitioned.rep00.json".toList []
    { noEpp := true, persist := true } 1 loaderStart _
    [.cores fun _ => 0, .read true (some 128), .ok, .ok, .ok, .ok, .ok, .ok, .ok, .ok, .ok,
      .signal .term, .poll false false true, .ok, .ok] loaderStart_start rfl ⟨rfl, rfl⟩ ⟨rfl, rfl⟩
    rfl rfl rfl [.partition [⟨0, 0, .little, "power".toList, some 128, some 0⟩], .attached,
      .stats 2 fun _ => 7] rfl (by simp) sevens (slot_of_stdout hsound rfl []) [.run sevens] []
    rfl
  have hc : (fun _ => 7) = c := (Printed.stats.inj (Option.some.inj hlast)).2
  subst hc
  exact ⟨run, hmem, hcolumns⟩

end Analyze

end FakeBigLittle
