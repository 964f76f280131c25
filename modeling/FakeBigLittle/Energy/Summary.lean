import FakeBigLittle.Bench.Collect
import FakeBigLittle.Energy.Series

/-!
# The summary of the sampler

The JSON record that `main` prints behind the loop, and the quantities without which it is
dropped.
-/

namespace FakeBigLittle

open CString Runs
open Json (array Reads Named)

namespace Energy

-- The domains that `main` looks for.
def domains : List Text := ["package-0", "core", "uncore", "dram", "psys"].map String.toList

/-- What `main` reads behind the loop: the clock since `t_start`, the status of the child, and
the MSRs of HWP. -/
structure Ending where
  tEnd : ℚ
  -- `none` without a child; inside, `none` where it did not exit
  child : Option (Option Nat)
  epp : Nat → Option UInt64
  hwpRequest : Nat → Option UInt64
  hwpCapabilities : Option UInt64
  hwpRequestPkg : Option UInt64

def Ending.exitCode (e : Ending) : Int :=
  match e.child with
  | none => 0
  | some none => -1
  | some (some code) => code

-- `v >> shift & 0xff`
def byteAt (v : UInt64) (shift : UInt64) : Nat := ((v >>> shift) &&& 0xff).toNat

def eppText : Option UInt64 → Text
  | none => "null".toList
  | some v => Printf.nat (byteAt v 24)

def hwpText : Option UInt64 → Text
  | none => "null".toList
  | some v => array ([0, 8, 16, 24].map fun shift => Printf.nat (byteAt v shift))

/-- `nsamples ? sum / nsamples : NAN` -/
def meanOf (s : Main) (sum : ℚ) : Double := per (some sum) s.nsamples

/-- `wall > 0 ? pkg_j / wall : NAN` -/
def avgPkgW (wall : ℚ) (pkg : Double) : Double := if 0 < wall then pkg.map (· / wall) else none

/-- The members behind the label; `nan key i` is the text of the NaN at `i` of `key`. -/
def summaryFields (nan : Text → Nat → Text) (m : Machine) (s : Main) (e : Ending) :
    List (Text × Text) :=
  let pkg := domJ s.rapl "package-0".toList
  let core := domJ s.rapl "core".toList
  let uncore := domJ s.rapl "uncore".toList
  let double := fun (key : String) d x => (key.toList, Printf.fixed (nan key.toList 0) d x)
  let perCpu := fun (key : String) d (x : Nat → Double) =>
    (key.toList, array ((List.range m.nrCpus).map fun i => Printf.fixed (nan key.toList i) d (x i)))
  [("wall_s".toList, Decimal.fixed 4 e.tEnd),
    ("samples".toList, Printf.nat s.nsamples),
    ("exit_code".toList, Printf.int e.exitCode),
    double "tsc_mhz" 1 m.tscMhz,
    ("tjmax_c".toList, Printf.int m.tjmax),
    double "pkg_j" 3 pkg,
    double "core_j" 3 core,
    double "uncore_j" 3 uncore,
    double "dram_j" 3 (domJ s.rapl "dram".toList),
    double "psys_j" 3 (domJ s.rapl "psys".toList),
    double "rest_j" 3 (restOf pkg core uncore),
    double "avg_pkg_w" 4 (avgPkgW e.tEnd pkg),
    double "pkg_c_mean" 1 (meanOf s s.tempSum),
    ("pkg_c_max".toList, Decimal.fixed 1 s.tempMax),
    perCpu "cpu_avg_mhz" 1 fun i => meanOf s (s.mhzSum i),
    perCpu "cpu_bzy_mhz" 1 fun i => meanOf s (s.bzySum i),
    perCpu "cpu_busy" 4 fun i => meanOf s (s.busySum i),
    ("epp".toList, array ((List.range m.nrCpus).map fun i => eppText (e.epp i))),
    ("hwp_request".toList, array ((List.range m.nrCpus).map fun i => hwpText (e.hwpRequest i))),
    ("hwp_capabilities".toList, hwpText e.hwpCapabilities),
    ("hwp_request_pkg".toList, hwpText e.hwpRequestPkg)]

def summary (nan : Text → Nat → Text) (o : Options) (m : Machine) (s : Main) (e : Ending) : Text :=
  Bench.record o.label (summaryFields nan m s e)

/-! ## The members -/

section Fields

variable {nan : Text → Nat → Text} {m : Machine} {s : Main} {e : Ending}

theorem slot_epp (v : Option UInt64) : Printf.Slot (eppText v) := by
  cases v with
  | none => exact Printf.slot_null
  | some v => exact Printf.slot_nat _

theorem reads_epp (v : Option UInt64) : ∃ w, Reads (eppText v) w := by
  cases v with
  | none => exact ⟨_, Json.reads_null⟩
  | some v => exact Printf.reads_nat _

theorem hwp_elements (v : UInt64) :
    ∀ t ∈ [0, 8, 16, 24].map fun shift => Printf.nat (byteAt v shift),
      Printf.Slot t ∧ ∃ w, Reads t w := by
  intro t ht
  obtain ⟨shift, -, rfl⟩ := List.mem_map.mp ht
  exact ⟨Printf.slot_nat _, Printf.reads_nat _⟩

theorem slot_hwp (v : Option UInt64) : Printf.Slot (hwpText v) := by
  cases v with
  | none => exact Printf.slot_null
  | some v => exact Printf.slot_array fun t ht => (hwp_elements v t ht).1

theorem reads_hwp (v : Option UInt64) : ∃ w, Reads (hwpText v) w := by
  cases v with
  | none => exact ⟨_, Json.reads_null⟩
  | some v => exact Json.reads_array fun t ht => (hwp_elements v t ht).2

theorem slot_perCpu {text : Nat → Text} (h : ∀ i, Printf.Slot (text i)) (n : Nat) :
    Printf.Slot (array ((List.range n).map text)) := by
  apply Printf.slot_array
  intro t ht
  obtain ⟨i, -, rfl⟩ := List.mem_map.mp ht
  exact h i

theorem reads_perCpu_iff {text : Nat → Text} (h : ∀ i, Printf.Slot (text i)) (n : Nat) :
    (∃ v, Reads (array ((List.range n).map text)) v) ↔ ∀ i < n, ∃ v, Reads (text i) v := by
  rw [Json.array_reads_iff]
  · simp
  · intro t ht
    obtain ⟨i, -, rfl⟩ := List.mem_map.mp ht
    exact (h i).judged

theorem summaryFields_keys : ∀ f ∈ summaryFields nan m s e, Printf.isKey f.1 = true := by
  have hkeys : ((summaryFields nan m s e).map Prod.fst).all Printf.isKey = true := by
    unfold summaryFields
    simp only [List.map_cons, List.map_nil]
    decide
  intro f hf
  exact List.all_eq_true.mp hkeys _ (List.mem_map_of_mem hf)

theorem summaryFields_slots (hnan : ∀ key i, Printf.IsNan (nan key i)) :
    ∀ f ∈ summaryFields nan m s e, Printf.Slot f.2 := by
  have hfixed : ∀ key i d x, Printf.Slot (Printf.fixed (nan key i) d x) := fun key i d x =>
    Printf.slot_fixed (hnan key i) d x
  unfold summaryFields
  simp only [List.forall_mem_cons, Printf.slot_decimal, Printf.slot_nat, Printf.slot_int, hfixed,
    slot_perCpu, slot_epp, slot_hwp, implies_true, true_and]
  exact List.forall_mem_nil _

theorem meanOf_ne_none (hn : 0 < s.nsamples) (sum : ℚ) : meanOf s sum ≠ none := by
  have hne : (s.nsamples : ℚ) ≠ 0 := by exact_mod_cast hn.ne'
  unfold meanOf per
  rw [if_neg hne]
  simp

theorem restOf_ne_none (pkg core uncore : Double) : restOf pkg core uncore ≠ none ↔ pkg ≠ none := by
  unfold restOf
  simp

theorem avgPkgW_ne_none (wall : ℚ) (pkg : Double) :
    avgPkgW wall pkg ≠ none ↔ 0 < wall ∧ pkg ≠ none := by
  unfold avgPkgW
  split_ifs with h <;> simp [h]

/-- Every member is read when no quantity is missing. -/
theorem summaryFields_read_iff (hnan : ∀ key i, Printf.IsNan (nan key i)) (hn : 0 < s.nsamples) :
    (∀ f ∈ summaryFields nan m s e, ∃ v, Reads f.2 v) ↔
      m.tscMhz ≠ none ∧ (∀ name ∈ domains, domJ s.rapl name ≠ none) ∧ 0 < e.tEnd := by
  have hread : ∀ key i d x, (∃ v, Reads (Printf.fixed (nan key i) d x) v) ↔ x ≠ none :=
    fun key i d x => Printf.fixed_reads_iff (hnan key i) d x
  have hmeans : ∀ key d (sum : Nat → ℚ), ∃ v, Reads (array ((List.range m.nrCpus).map fun i =>
      Printf.fixed (nan key i) d (meanOf s (sum i)))) v := by
    intro key d sum
    apply (reads_perCpu_iff (fun i => Printf.slot_fixed (hnan key i) d _) _).mpr
    intro i hi
    exact (hread key i d _).mpr (meanOf_ne_none hn _)
  unfold summaryFields domains
  simp only [List.forall_mem_cons, Printf.reads_decimal, Printf.reads_nat, Printf.reads_int, hread,
    hmeans, reads_perCpu_iff (fun i => slot_epp _), reads_perCpu_iff (fun i => slot_hwp _),
    reads_epp, reads_hwp, restOf_ne_none, avgPkgW_ne_none, implies_true, true_and, List.map_cons,
    List.map_nil]
  constructor
  · rintro ⟨htsc, hpkg, hcore, huncore, hdram, hpsys, -, ⟨hwall, -⟩, -, -⟩
    exact ⟨htsc, ⟨hpkg, hcore, huncore, hdram, hpsys, List.forall_mem_nil _⟩, hwall⟩
  · rintro ⟨htsc, ⟨hpkg, hcore, huncore, hdram, hpsys, -⟩, hwall⟩
    exact ⟨htsc, hpkg, hcore, huncore, hdram, hpsys, hpkg, ⟨hwall, hpkg⟩,
      meanOf_ne_none hn s.tempSum, List.forall_mem_nil _⟩

theorem summary_kept_iff (hnan : ∀ key i, Printf.IsNan (nan key i)) (hn : 0 < s.nsamples)
    (o : Options) :
    Bench.Kept (summary nan o m s e) ↔ Bench.Kept (Bench.labelOnly o.label) ∧
      m.tscMhz ≠ none ∧ (∀ name ∈ domains, domJ s.rapl name ≠ none) ∧ 0 < e.tEnd := by
  have hne : summaryFields nan m s e ≠ [] := List.cons_ne_nil _ _
  unfold summary
  rw [Bench.record_kept_iff o.label hne summaryFields_keys (summaryFields_slots hnan),
    summaryFields_read_iff hnan hn]

end Fields

/-! ## The run before it -/

theorem domJ_ne_none (rapl : List RaplDom) (name : Text) :
    domJ rapl name ≠ none ↔ findDom rapl name ≠ none := by
  unfold domJ findDom
  rw [ne_eq, ne_eq, Option.map_eq_none_iff, List.find?_eq_none, List.findIdx?_eq_none_iff]
  simp

theorem findDom_prime (rapl : List RaplDom) (read : Nat → Option UInt64) (name : Text) :
    findDom (prime rapl read) name = findDom rapl name := by
  have hnames : (prime rapl read).map (·.name) = rapl.map (·.name) := by
    apply List.ext_getElem?
    intro i
    unfold prime
    rw [List.getElem?_map, List.getElem?_map, List.getElem?_mapIdx, Option.map_map]
    congr 1
    funext d
    exact raplDeltaJ_name d _
  rw [findDom_map, findDom_map, hnames]

section Domains

variable {rapl rapl' : List RaplDom} {read : Nat → Option UInt64} {name : Text}

theorem deltaOf_isSome (read : Nat → Option UInt64) (h : findDom rapl name ≠ none) :
    ∃ rapl' j, deltaOf rapl read name = some (rapl', j) := by
  obtain ⟨i, hi⟩ := Option.ne_none_iff_exists'.mp h
  obtain ⟨d, hd, -⟩ := findDom_name hi
  unfold deltaOf
  simp only [hi, hd, Option.map_some]
  exact ⟨_, _, rfl⟩

theorem deltaOf_found {j : Double} (h : deltaOf rapl read name = some (rapl', j)) :
    findDom rapl name ≠ none := by
  obtain ⟨i, d, hi, -⟩ := deltaOf_cases h
  rw [hi]
  exact Option.some_ne_none i

/-- Where the five calls come back, each has found its domain. -/
theorem readRapl_found {j : Joules} (h : readRapl rapl read = some (rapl', j)) :
    (∀ name, findDom rapl' name = findDom rapl name) ∧
      ∀ name ∈ domains, findDom rapl name ≠ none := by
  obtain ⟨r₁, r₂, r₃, r₄, h₁, h₂, h₃, h₄, h₅⟩ := readRapl_cases h
  have hn₁ := deltaOf_findDom h₁
  have hn₂ := fun name => (deltaOf_findDom h₂ name).trans (hn₁ name)
  have hn₃ := fun name => (deltaOf_findDom h₃ name).trans (hn₂ name)
  have hn₄ := fun name => (deltaOf_findDom h₄ name).trans (hn₃ name)
  refine ⟨fun name => (deltaOf_findDom h₅ name).trans (hn₄ name), ?_⟩
  unfold domains
  simp only [List.map_cons, List.map_nil, List.forall_mem_cons]
  refine ⟨deltaOf_found h₁, ?_, ?_, ?_, ?_, List.forall_mem_nil _⟩
  · rw [← hn₁]
    exact deltaOf_found h₂
  · rw [← hn₂]
    exact deltaOf_found h₃
  · rw [← hn₃]
    exact deltaOf_found h₄
  · rw [← hn₄]
    exact deltaOf_found h₅

/-- Where they do not, one is missing. -/
theorem readRapl_missing (h : readRapl rapl read = none) :
    ¬∀ name ∈ domains, findDom rapl name ≠ none := by
  unfold domains
  simp only [List.map_cons, List.map_nil, List.forall_mem_cons]
  rintro ⟨hpkg, hcore, huncore, hdram, hpsys, -⟩
  obtain ⟨r₁, pkg, h₁⟩ := deltaOf_isSome read hpkg
  rw [← deltaOf_findDom h₁] at hcore huncore hdram hpsys
  obtain ⟨r₂, core, h₂⟩ := deltaOf_isSome read hcore
  rw [← deltaOf_findDom h₂] at huncore hdram hpsys
  obtain ⟨r₃, uncore, h₃⟩ := deltaOf_isSome read huncore
  rw [← deltaOf_findDom h₃] at hdram hpsys
  obtain ⟨r₄, dram, h₄⟩ := deltaOf_isSome read hdram
  rw [← deltaOf_findDom h₄] at hpsys
  obtain ⟨r₅, psys, h₅⟩ := deltaOf_isSome read hpsys
  unfold readRapl at h
  simp only [h₁, h₂, h₃, h₄, h₅, Option.bind_eq_bind, Option.bind_some] at h
  exact absurd h (Option.some_ne_none _)

end Domains

/-- What a run leaves behind, of the domains that it started with. -/
structure Went (rapl : List RaplDom) (s : Main) : Prop where
  names : ∀ name, findDom s.rapl name = findDom rapl name
  done : s.pc = .done → 0 < s.nsamples ∧ ∀ name ∈ domains, findDom rapl name ≠ none
  crashed : s.pc = .crashed → ¬∀ name ∈ domains, findDom rapl name ≠ none

theorem went_step {o : Options} {m : Machine} {rapl : List RaplDom} {s s' : Main} {tick : Tick}
    (hwent : Went rapl s) (h : sampleStep o m s tick = some s') : Went rapl s' := by
  obtain ⟨-, ⟨hnone, rfl⟩ | ⟨rapl', j, hsome, rfl⟩⟩ := sampleStep_cases h
  · have hmissing := readRapl_missing hnone
    simp only [hwent.names] at hmissing
    exact ⟨hwent.names, fun hdone => Pc.noConfusion hdone, fun _ => hmissing⟩
  · obtain ⟨hnames, hfound⟩ := readRapl_found hsome
    simp only [hwent.names] at hnames hfound
    refine ⟨hnames, fun _ => ⟨Nat.succ_pos _, hfound⟩, fun hcrashed => ?_⟩
    unfold sampled at hcrashed
    simp only at hcrashed
    split_ifs at hcrashed

theorem went_run {o : Options} {m : Machine} {rapl : List RaplDom} {first : Tick} {s : Main}
    {ticks : List Tick} (h : run (sampleStep o m) (start rapl first) ticks = some s) :
    Went rapl s := by
  have hstart : Went rapl (start rapl first) := by
    exact ⟨findDom_prime rapl first.energyUj, fun hdone => Pc.noConfusion hdone,
      fun hcrashed => Pc.noConfusion hcrashed⟩
  exact inv_run (fun s e t hwent hstep => went_step hwent hstep) ticks hstart h

/-- A run of the sampler that is over, and what it prints NaN as. -/
structure Finished where
  o : Options
  m : Machine
  rapl : List RaplDom
  first : Tick
  ticks : List Tick
  final : Main
  ending : Ending
  nan : Text → Nat → Text
  ran : run (sampleStep o m) (start rapl first) ticks = some final
  ended : final.pc ≠ .sampling
  isNan : ∀ key i, Printf.IsNan (nan key i)

/-- The summary is printed, and none of it is dropped. -/
def Finished.Recorded (r : Finished) : Prop :=
  r.final.pc = .done ∧ Bench.Kept (summary r.nan r.o r.m r.final r.ending)

theorem recorded_iff (r : Finished) :
    r.Recorded ↔ Bench.Kept (Bench.labelOnly r.o.label) ∧ r.m.tscMhz ≠ none ∧
      (∀ name ∈ domains, findDom r.rapl name ≠ none) ∧ 0 < r.ending.tEnd := by
  have hwent := went_run r.ran
  unfold Finished.Recorded
  cases hpc : r.final.pc with
  | sampling => exact absurd hpc r.ended
  | crashed =>
    refine iff_of_false (fun hdone => Pc.noConfusion hdone.1) ?_
    rintro ⟨-, -, hfound, -⟩
    exact hwent.crashed hpc hfound
  | done =>
    obtain ⟨hn, hfound⟩ := hwent.done hpc
    rw [summary_kept_iff r.isNan hn]
    simp only [domJ_ne_none, hwent.names, true_and]

end Energy

end FakeBigLittle
