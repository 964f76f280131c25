import FakeBigLittle.Csv
import FakeBigLittle.CsvText
import FakeBigLittle.Json.Dumps
import Mathlib.Data.Char
import Mathlib.Data.List.Dedup
import Mathlib.Data.List.DropRight
import Mathlib.Data.List.Lex

/-!
# The table of the runs

`write_csv` of `scripts/analyze.py`: one row for each run, with the columns that every run has and
one for each further counter that some run has.
-/

namespace FakeBigLittle

open CString
open Json (Py)

namespace Analyze

variable {F : Type}

/-! ## What is written -/

/-- What `flatten_run` returns: the columns, and `_bls_extra`. -/
structure TidyRow (F : Type) where
  columns : Dict Text (Py F)
  blsExtra : Dict Text (Py F)

/-- How Python writes a number: `"%.6f" % x`, whether `x` is a NaN, and `str` of a list or a
dictionary. -/
structure Formats (F : Type) where
  fixed6 : F → Text
  isNan : F → Bool
  str : Py F → Text

-- `BASE_COLUMNS`
def baseColumns : List Text :=
  ["file", "experiment", "arm", "sched", "epp_mode", "strict", "rep", "timestamp",
    "ok", "exit_code", "kernel", "on_ac", "governor", "start_temp_c",
    "wall_s", "pkg_j", "core_j", "uncore_j", "dram_j", "psys_j", "rest_j",
    "avg_pkg_w", "pkg_c_mean", "pkg_c_max",
    "energy_to_solution_j", "edp_js", "pkg_j_per_s", "rest_frac",
    "partitioned_epp", "n_big_cpus", "n_little_cpus", "big_cpus", "little_cpus",
    "smt_pairs_split",
    "bzy_mhz_big_mean", "bzy_mhz_little_mean", "bzy_ratio_little_over_big"].map String.toList ++
  ((List.range 8).flatMap fun i => ["_avg_mhz", "_bzy_mhz", "_busy", "_epp"].map fun s =>
    "cpu".toList ++ Nat.toDigits 10 i ++ s.toList) ++
  ["pinger_present", "pinger_n", "wake_us_p50", "wake_us_p99", "wake_us_p999",
    "wake_us_mean", "work_us_p50", "work_us_p99", "work_us_mean", "target_work_us",
    "spin_present", "spin_threads", "spin_miters_total", "spin_miters_mean",
    "bls_present", "bls_enqueue", "bls_dsq_big", "bls_dsq_little", "bls_cross_domain",
    "bls_run_big_ms", "bls_run_little_ms", "bls_cross_frac", "bls_run_big_frac",
    "bls_run_little_frac", "bls_dsq_big_frac",
    "notes"].map String.toList

def notes : Text := "notes".toList

def bls : Text := "bls_".toList

-- `extra`
def extraKeys (rows : List (TidyRow F)) : List Text :=
  Dict.sortBy id (rows.flatMap fun r => Dict.keys r.blsExtra).dedup

-- `cols`
def csvColumns (rows : List (TidyRow F)) : List Text :=
  baseColumns.filter (· ≠ notes) ++ (extraKeys rows).map (bls ++ ·) ++ [notes]

def valueOf (extra : List Text) (r : TidyRow F) (c : Text) : Option (Py F) :=
  if bls.isPrefixOf c ∧ extra.contains (c.drop 4) then Dict.get r.blsExtra (c.drop 4)
  else Dict.get r.columns c

def cellText (fm : Formats F) : Option (Py F) → Text
  | none | some .none => []
  | some (.bool b) => if b then "true".toList else "false".toList
  | some (.float x) =>
    if fm.isNan x then [] else ((fm.fixed6 x).rdropWhile (· = '0')).rdropWhile (· = '.')
  | some (.int i) => Printf.int i
  | some (.str s) => s
  | some v => fm.str v

def csvRow (fm : Formats F) (rows : List (TidyRow F)) (r : TidyRow F) : List Text :=
  (csvColumns rows).map fun c => cellText fm (valueOf (extraKeys rows) r c)

def writeCsv (fm : Formats F) (rows : List (TidyRow F)) : Text :=
  Csv.write (csvColumns rows :: rows.map (csvRow fm rows))

/-! ## The columns -/

theorem baseColumns_nodup : baseColumns.Nodup := by decide +kernel

theorem notes_mem : notes ∈ baseColumns := by decide +kernel

/-- No counter has the name of a column. -/
def Separate (rows : List (TidyRow F)) : Prop := ∀ k ∈ extraKeys rows, bls ++ k ∉ baseColumns

theorem mem_extraKeys {rows : List (TidyRow F)} {k : Text} :
    k ∈ extraKeys rows ↔ ∃ r ∈ rows, k ∈ Dict.keys r.blsExtra := by
  unfold extraKeys
  rw [(Dict.sortBy_perm ..).mem_iff, List.mem_dedup, List.mem_flatMap]

theorem mem_csvColumns {rows : List (TidyRow F)} {c : Text} :
    c ∈ csvColumns rows ↔ c ∈ baseColumns ∨ ∃ k ∈ extraKeys rows, bls ++ k = c := by
  unfold csvColumns
  simp only [List.mem_append, List.mem_filter, List.mem_map, List.mem_singleton,
    decide_eq_true_eq]
  constructor
  · rintro ((⟨h, -⟩ | h) | rfl)
    · exact Or.inl h
    · exact Or.inr h
    · exact Or.inl notes_mem
  · rintro (h | h)
    · by_cases hc : c = notes
      · exact Or.inr hc
      · exact Or.inl (Or.inl ⟨h, hc⟩)
    · exact Or.inl (Or.inr h)

theorem csvColumns_nodup {rows : List (TidyRow F)} (h : Separate rows) :
    (csvColumns rows).Nodup := by
  have hextra : ((extraKeys rows).map (bls ++ ·)).Nodup := by
    refine List.Nodup.map (fun _ _ => List.append_cancel_left) ?_
    exact (Dict.sortBy_perm ..).nodup_iff.mpr (List.nodup_dedup _)
  have hnotes : notes ∉ (extraKeys rows).map (bls ++ ·) := by
    intro hmem
    obtain ⟨k, -, hk⟩ := List.mem_map.mp hmem
    exact absurd (List.cons.inj hk).1 (by decide)
  unfold csvColumns
  refine List.Nodup.append (List.Nodup.append (baseColumns_nodup.filter _) hextra ?_)
    (List.nodup_singleton _) ?_
  · intro c hbase hmem
    obtain ⟨k, hk, rfl⟩ := List.mem_map.mp hmem
    exact h k hk (List.mem_filter.mp hbase).1
  · intro c hmem hc
    obtain rfl := List.mem_singleton.mp hc
    rcases List.mem_append.mp hmem with hmem | hmem
    · exact of_decide_eq_true (List.mem_filter.mp hmem).2 rfl
    · exact hnotes hmem

theorem valueOf_base {rows : List (TidyRow F)} (h : Separate rows) (r : TidyRow F) {c : Text}
    (hc : c ∈ baseColumns) : valueOf (extraKeys rows) r c = Dict.get r.columns c := by
  unfold valueOf
  refine if_neg fun hextra => h _ (List.contains_iff_mem.mp hextra.2) ?_
  obtain ⟨k, rfl⟩ := List.isPrefixOf_iff_prefix.mp hextra.1
  exact hc

theorem valueOf_extra {rows : List (TidyRow F)} (r : TidyRow F) {k : Text}
    (hk : k ∈ extraKeys rows) :
    valueOf (extraKeys rows) r (bls ++ k) = Dict.get r.blsExtra k :=
  if_pos ⟨List.isPrefixOf_iff_prefix.mpr (List.prefix_append bls k), List.contains_iff_mem.mpr hk⟩

/-! ## What is read -/

/-- What `csv.DictReader` has in a row. -/
def tidyCell (rows : List (TidyRow F)) (row : List Text) (c : Text) : Option Text :=
  Csv.get (csvColumns rows) (row.map some) c

theorem cell_csvRow {fm : Formats F} {rows : List (TidyRow F)} (h : Separate rows)
    (r : TidyRow F) {c : Text} (hc : c ∈ csvColumns rows) :
    tidyCell rows (csvRow fm rows r) c = some (cellText fm (valueOf (extraKeys rows) r c)) := by
  unfold tidyCell csvRow
  rw [List.map_map]
  refine Csv.get_of_mem (csvColumns_nodup h) (by rw [List.length_map]) ?_
  have hzip := List.zip_map' (f := id)
    (g := some ∘ fun c => cellText fm (valueOf (extraKeys rows) r c)) (l := csvColumns rows)
  rw [List.map_id] at hzip
  rw [hzip]
  exact List.mem_map_of_mem
    (f := fun c => (id c, some (cellText fm (valueOf (extraKeys rows) r c)))) hc

/-- **The table has every run, and of every run what it holds.** Read back, the file has the
columns, and a row for each run in order, where every column holds the text of the run's value,
those of the further counters included. -/
theorem written_csv_read (fm : Formats F) (rows : List (TidyRow F)) (hseparate : Separate rows)
    (hkeys : ∀ r ∈ rows, ∀ k ∈ Dict.keys r.blsExtra, '\r' ∉ k)
    (hcells : ∀ r ∈ rows, ∀ t ∈ csvRow fm rows r, '\r' ∉ t) :
    Csv.read (writeCsv fm rows) = csvColumns rows :: rows.map (csvRow fm rows) ∧
      ∀ r ∈ rows,
        (∀ c ∈ baseColumns,
          tidyCell rows (csvRow fm rows r) c = some (cellText fm (Dict.get r.columns c))) ∧
        ∀ r' ∈ rows, ∀ k ∈ Dict.keys r'.blsExtra,
          tidyCell rows (csvRow fm rows r) (bls ++ k) =
            some (cellText fm (Dict.get r.blsExtra k)) := by
  have hbase : ∀ c ∈ baseColumns, '\r' ∉ c := by decide +kernel
  refine ⟨Csv.read_write ?_, fun r hr => ⟨fun c hc => ?_, fun r' hr' k hk => ?_⟩⟩
  · refine List.forall_mem_cons.mpr ⟨fun c hc => ?_, fun row hrow => ?_⟩
    · rcases mem_csvColumns.mp hc with hc | ⟨k, hk, rfl⟩
      · exact hbase c hc
      · obtain ⟨r, hr, hmem⟩ := mem_extraKeys.mp hk
        intro hreturn
        rcases List.mem_append.mp hreturn with hreturn | hreturn
        · exact absurd hreturn (by decide)
        · exact hkeys r hr k hmem hreturn
    · obtain ⟨r, hr, rfl⟩ := List.mem_map.mp hrow
      exact hcells r hr
  · rw [cell_csvRow hseparate r (mem_csvColumns.mpr (Or.inl hc)), valueOf_base hseparate r hc]
  · have hextra : k ∈ extraKeys rows := mem_extraKeys.mpr ⟨r', hr', hk⟩
    rw [cell_csvRow hseparate r (mem_csvColumns.mpr (Or.inr ⟨k, hextra, rfl⟩)),
      valueOf_extra r hextra]

/-- Floats that are all 0.5. -/
def halves : Formats Unit where
  fixed6 _ := "0.500000".toList
  isNan _ := false
  str _ := []

/-- A note with a comma and quotation marks, and a counter that the other run does not have. -/
def quotedRun : TidyRow Unit :=
  ⟨[("wall_s".toList, .float ()), (notes, .str "1, \"2\"".toList)], [("steal".toList, .int 3)]⟩

def quotedRuns : List (TidyRow Unit) := [quotedRun, ⟨[], []⟩]

theorem written_csv_read_quoted :
    Csv.read (writeCsv halves quotedRuns) =
        csvColumns quotedRuns :: quotedRuns.map (csvRow halves quotedRuns) ∧
      tidyCell quotedRuns (csvRow halves quotedRuns quotedRun) notes = some "1, \"2\"".toList ∧
      tidyCell quotedRuns (csvRow halves quotedRuns quotedRun) (bls ++ "steal".toList) =
        some ['3'] ∧
      tidyCell quotedRuns (csvRow halves quotedRuns ⟨[], []⟩) (bls ++ "steal".toList) =
        some [] := by
  have hkey : ∀ r ∈ quotedRuns, ∀ k ∈ Dict.keys r.blsExtra, k = "steal".toList := by decide
  have hseparate : Separate quotedRuns := by
    intro k hk
    obtain ⟨r, hr, hmem⟩ := mem_extraKeys.mp hk
    rw [hkey r hr k hmem]
    decide +kernel
  have hvalues : ∀ r ∈ quotedRuns, ∀ e ∈ r.columns ++ r.blsExtra,
      '\r' ∉ cellText halves (some e.2) := by
    simp only [quotedRuns, quotedRun, List.forall_mem_cons, List.cons_append, List.nil_append]
    exact ⟨⟨by decide, by decide, by decide, List.forall_mem_nil _⟩, List.forall_mem_nil _,
      List.forall_mem_nil _⟩
  have hget : ∀ (d : Dict Text (Py Unit)) (k : Text), Dict.get d k = none ∨
      ∃ e ∈ d, Dict.get d k = some e.2 := by
    intro d k
    cases hfind : d.find? fun e => e.1 = k with
    | none => exact Or.inl (by rw [Dict.get, hfind]; rfl)
    | some e => exact Or.inr ⟨e, List.mem_of_find?_eq_some hfind, by rw [Dict.get, hfind]; rfl⟩
  have hcells : ∀ r ∈ quotedRuns, ∀ t ∈ csvRow halves quotedRuns r, '\r' ∉ t := by
    intro r hr t ht
    obtain ⟨c, -, rfl⟩ := List.mem_map.mp ht
    unfold valueOf
    split_ifs
    · rcases hget r.blsExtra (c.drop 4) with h | ⟨e, he, h⟩ <;> rw [h]
      · exact List.not_mem_nil
      · exact hvalues r hr e (List.mem_append_right _ he)
    · rcases hget r.columns c with h | ⟨e, he, h⟩ <;> rw [h]
      · exact List.not_mem_nil
      · exact hvalues r hr e (List.mem_append_left _ he)
  obtain ⟨hread, hrows⟩ := written_csv_read halves quotedRuns hseparate
    (fun r hr k hk => by rw [hkey r hr k hk]; decide) hcells
  have hfirst : quotedRun ∈ quotedRuns := List.mem_cons_self
  have hsecond : (⟨[], []⟩ : TidyRow Unit) ∈ quotedRuns :=
    List.mem_cons_of_mem _ List.mem_cons_self
  refine ⟨hread, (hrows _ hfirst).1 notes notes_mem, ?_, ?_⟩
  · exact (hrows _ hfirst).2 _ hfirst _ List.mem_cons_self
  · exact (hrows _ hsecond).2 _ hfirst _ List.mem_cons_self

end Analyze

end FakeBigLittle
