import FakeBigLittle.Bench.Collect
import FakeBigLittle.CsvText
import FakeBigLittle.Rail.Frequency
import FakeBigLittle.Runs

/-!
# The CSV file

`energy` writes the samples of a run as text, and `load_samples` of the rail model reads the text
back. All that is lost is what does not fit into the digits.
-/

namespace FakeBigLittle

open CString Runs

/-! ## What is written -/

namespace Energy

-- The digits of the formats, for the columns of `n` CPUs.
def csvDigits (n : Nat) : List Nat :=
  [3, 4, 4, 4, 4, 4, 4, 1] ++ List.replicate n 1 ++ List.replicate n 1 ++ List.replicate n 4

def csvLine : List Text → Text
  | [] => ['\n']
  | t :: ts => t ++ (ts.flatMap (fun u => ',' :: u) ++ ['\n'])

/-- The cells of a row as text; `nan j` is the NaN in column `j`. -/
def rowTexts (nan : Nat → Text) (n : Nat) (r : Row) : List Text :=
  (r.cells.zip (csvDigits n)).zipIdx.map fun p => Printf.fixed (nan p.2) p.1.2 p.1.1

/-- The file; `nan i j` is the NaN in row `i` and column `j`. -/
def csvText (nan : Nat → Nat → Text) (n : Nat) (rows : List Row) : Text :=
  csvLine (csvHeader n) ++ rows.zipIdx.flatMap fun r => csvLine (rowTexts (nan r.2) n r.1)

/-- The cells of a row as they are printed. -/
def roundedCells (n : Nat) (r : Row) : List (Option ℚ) :=
  (r.cells.zip (csvDigits n)).map fun p => p.1.map (Decimal.rounded p.2)

end Energy

/-! ## What is read -/

namespace Rail

-- What `_fnum` takes for a number that is missing.
def missing : List Text :=
  ["", "nan", "na", "n/a", "null", "-", "none"].map String.toList

-- `_fnum`
def fnum (s : Text) : Option ℚ :=
  let s := Bench.strip s
  if missing.contains (s.map Char.toLower) then none else Decimal.read s

/-- `load_samples` of a text. -/
def loadCsv (t : Text) : List (Sample ℚ) × Nat :=
  match Csv.read t with
  | [] | [] :: _ => ([], 0)
  | header :: rows =>
    loadSamples ((rows.filter (· ≠ [])).map fun row =>
      Csv.get (header.map Bench.strip) (row.map fnum))

end Rail

/-! ## Cells -/

section Cells

/-- A character of a name or a number. -/
def isCell (c : Char) : Bool := Printf.printable c && c != ' ' && c != ',' && c != '"'

/-- A cell that needs no quotation marks. -/
def Cell (t : Text) : Prop := t ≠ [] ∧ ∀ c ∈ t, isCell c = true

variable {c : Char} {t : Text}

theorem isCell_of_isDigit (h : c.isDigit = true) : isCell c = true := by
  have hne : ∀ d : Char, d.isDigit = false → c ≠ d := fun d => Decimal.isDigit_ne h
  simp [isCell, Printf.digit_printable h, hne]

theorem isCell_of_isNumeral (h : Decimal.IsNumeral c) : isCell c = true := by
  rcases h with h | h
  · exact isCell_of_isDigit h
  · have hsigns : ['.', '-', '+', 'e'].all isCell = true := by decide
    exact List.all_eq_true.mp hsigns c h

theorem isSpaceChar_of_isCell (h : isCell c = true) : Bench.isSpaceChar c = false := by
  simp only [isCell, Printf.printable, Bool.and_eq_true, decide_eq_true_eq, bne_iff_ne] at h
  obtain ⟨⟨⟨⟨hlow, hhigh⟩, hblank⟩, -⟩, -⟩ := h
  have hne : c.toNat ≠ 32 := fun heq => hblank (Char.toNat_inj.mp heq)
  simp only [Bench.isSpaceChar, Bool.or_eq_false_iff, decide_eq_false_iff_not,
    beq_eq_false_iff_ne]
  omega

theorem Cell.strip (h : Cell t) : Bench.strip t = t := by
  have hspace : ∀ c ∈ t, ¬Bench.isSpaceChar c = true := fun c hc => by
    rw [isSpaceChar_of_isCell (h.2 c hc)]
    exact Bool.false_ne_true
  obtain ⟨c, rest, rfl⟩ := List.exists_cons_of_ne_nil h.1
  unfold Bench.strip
  rw [List.dropWhile_cons_of_neg (hspace c List.mem_cons_self), List.rdropWhile_eq_self_iff]
  exact fun hne => hspace _ (List.getLast_mem hne)

theorem Cell.plain (h : Cell t) : Csv.needsQuotes t = false ∧ '\r' ∉ t := by
  constructor
  · refine Bool.eq_false_iff.mpr fun hany => ?_
    obtain ⟨c, hc, hquote⟩ := List.any_eq_true.mp hany
    have hcell := h.2 c hc
    simp only [Bool.or_eq_true, beq_iff_eq] at hquote
    rcases hquote with (rfl | rfl) | rfl <;> exact Bool.noConfusion hcell
  · exact fun hmem => Bool.noConfusion (h.2 '\r' hmem)

theorem csvLine_eq {row : List Text} (h : ∀ t ∈ row, Cell t) :
    Energy.csvLine row = Csv.writeRow row := by
  have hfield : ∀ t, Cell t → Csv.writeField t = t := fun t ht => by
    unfold Csv.writeField
    rw [ht.plain.1]
    rfl
  unfold Energy.csvLine Csv.writeRow
  split
  · rfl
  · rename_i t ts
    obtain ⟨ht, hts⟩ := List.forall_mem_cons.mp h
    split
    · rename_i heq
      exact absurd heq (by simp)
    · rename_i heq
      exact absurd (List.cons.inj heq).1 ht.1
    · rename_i u us _ heq
      obtain ⟨rfl, rfl⟩ := List.cons.inj heq
      rw [hfield t ht]
      congr 2
      refine List.flatMap_congr fun u hu => ?_
      rw [hfield u (hts u hu)]

theorem cell_nan (h : Printf.IsNan t) : Cell t := by
  rcases h with rfl | rfl <;> exact ⟨by decide, List.all_eq_true.mp rfl⟩

theorem cell_fixed {nan : Text} (hnan : Printf.IsNan nan) (d : Nat) (x : Option ℚ) :
    Cell (Printf.fixed nan d x) := by
  cases x with
  | none => exact cell_nan hnan
  | some x =>
    refine ⟨fun hnil => ?_, fun c hc => isCell_of_isNumeral (Decimal.fixed_isNumeral hc)⟩
    have hpoint : '.' ∈ Printf.fixed nan d (some x) := by
      unfold Printf.fixed Decimal.fixed
      simp
    rw [hnil] at hpoint
    exact List.not_mem_nil hpoint

theorem cell_column (cpu : Nat) {what : Text} (h : ∀ c ∈ what, isCell c = true) :
    Cell (Energy.column cpu what) := by
  refine ⟨List.append_ne_nil_of_left_ne_nil (by decide) _, fun c hc => ?_⟩
  unfold Energy.column at hc
  have hcpu : ∀ c ∈ "cpu".toList, isCell c = true := List.all_eq_true.mp rfl
  rcases List.mem_append.mp hc with hc | hc
  · exact hcpu c hc
  · rcases List.mem_append.mp hc with hc | hc
    · exact isCell_of_isDigit (Energy.digits_isDigit cpu c hc)
    · exact h c hc

theorem cell_header {n : Nat} : ∀ t ∈ Energy.csvHeader n, Cell t := by
  have hkinds : ∀ what ∈ Energy.kinds, what.all isCell = true := by decide
  have hfixed : ∀ t ∈ Energy.fixedColumns, t ≠ [] ∧ t.all isCell = true := by decide
  intro t ht
  rw [Energy.csvHeader_eq] at ht
  rcases List.mem_append.mp ht with ht | ht
  · obtain ⟨hne, hall⟩ := hfixed t ht
    exact ⟨hne, List.all_eq_true.mp hall⟩
  · obtain ⟨what, hwhat, ht⟩ := List.mem_flatMap.mp ht
    obtain ⟨cpu, -, rfl⟩ := List.mem_map.mp ht
    exact cell_column cpu (List.all_eq_true.mp (hkinds what hwhat))

/-- A number that is printed is read as it was rounded, and a NaN as missing. -/
theorem fnum_fixed {nan : Text} (hnan : Printf.IsNan nan) {d : Nat} (hd : 0 < d) (x : Option ℚ) :
    Rail.fnum (Printf.fixed nan d x) = x.map (Decimal.rounded d) := by
  unfold Rail.fnum
  rw [(cell_fixed hnan d x).strip]
  cases x with
  | none =>
    rcases hnan with h | h <;> (unfold Printf.fixed; rw [h]; rfl)
  | some x =>
    -- No text of a missing number has a point.
    have hpoint : '.' ∈ (Printf.fixed nan d (some x)).map Char.toLower :=
      List.mem_map.mpr ⟨'.', by unfold Printf.fixed Decimal.fixed; simp, rfl⟩
    have hnone : ∀ t ∈ Rail.missing, '.' ∉ t := by decide
    simp only
    rw [if_neg fun hmem => hnone _ (List.contains_iff_mem.mp hmem) hpoint]
    exact Decimal.read_fixed hd x

end Cells

/-! ## The file is read -/

namespace Energy

/-- As many readings as CPUs. -/
structure Row.Whole (n : Nat) (r : Row) : Prop where
  mhz : r.mhz.length = n
  bzyMhz : r.bzyMhz.length = n
  busyOf : r.busyOf.length = n

theorem csvDigits_pos (n : Nat) : ∀ d ∈ csvDigits n, 0 < d := by
  have hfixed : ∀ d ∈ [3, 4, 4, 4, 4, 4, 4, 1], 0 < d := by decide
  intro d hd
  simp only [csvDigits, List.mem_append, List.mem_replicate] at hd
  rcases hd with ((hd | ⟨-, rfl⟩) | ⟨-, rfl⟩) | ⟨-, rfl⟩
  · exact hfixed d hd
  all_goals decide

/-- Every row that a run leaves is whole. -/
theorem rows_whole {o : Options} {m : Machine} {rapl : List RaplDom} {first : Tick}
    {ticks : List Tick} {s : Main} (hrun : run (sampleStep o m) (start rapl first) ticks = some s) :
    ∀ r ∈ s.rows, r.Whole m.nrCpus := by
  refine inv_run (I := fun s : Main => ∀ r ∈ s.rows, r.Whole m.nrCpus) ?_ ticks
    (List.forall_mem_nil _) hrun
  intro s tick t h hstep
  obtain ⟨-, ⟨-, rfl⟩ | ⟨rapl, j, -, rfl⟩⟩ := sampleStep_cases hstep
  · exact h
  · intro r hr
    unfold sampled at hr
    simp only at hr
    split_ifs at hr
    · rcases List.mem_append.mp hr with hr | hr
      · exact h r hr
      · rw [List.mem_singleton.mp hr]
        exact ⟨by simp [rowOf], by simp [rowOf], by simp [rowOf]⟩
    · exact h r hr

end Energy

namespace Rail

open Energy

variable {nan : Nat → Text} {n : Nat}

theorem cell_rowTexts (hnan : ∀ j, Printf.IsNan (nan j)) (r : Energy.Row) :
    ∀ t ∈ rowTexts nan n r, Cell t := by
  intro t ht
  obtain ⟨p, -, rfl⟩ := List.mem_map.mp ht
  exact cell_fixed (hnan _) _ _

theorem map_fnum_rowTexts (hnan : ∀ j, Printf.IsNan (nan j)) (r : Energy.Row) :
    (rowTexts nan n r).map fnum = roundedCells n r := by
  unfold rowTexts roundedCells
  rw [List.map_map]
  have hzip : (r.cells.zip (csvDigits n)).zipIdx.map Prod.fst = r.cells.zip (csvDigits n) :=
    List.zipIdx_map_fst ..
  rw [← hzip, List.map_map, hzip]
  refine List.map_congr_left fun p hp => ?_
  have hmem : p.1 ∈ r.cells.zip (csvDigits n) := by
    rw [← hzip]
    exact List.mem_map_of_mem hp
  exact fnum_fixed (hnan _) (csvDigits_pos n _ (List.of_mem_zip hmem).2) _

theorem rowTexts_ne_nil (r : Energy.Row) : rowTexts nan n r ≠ [] := by
  unfold rowTexts
  simp [Energy.Row.cells, csvDigits]

theorem read_csvText {nan : Nat → Nat → Text} (hnan : ∀ i j, Printf.IsNan (nan i j))
    (n : Nat) (rows : List Energy.Row) : Csv.read (csvText nan n rows) =
      csvHeader n :: rows.zipIdx.map fun r => rowTexts (nan r.2) n r.1 := by
  have hcells : ∀ row ∈ csvHeader n :: rows.zipIdx.map fun r => rowTexts (nan r.2) n r.1,
      ∀ t ∈ row, Cell t := by
    refine List.forall_mem_cons.mpr ⟨cell_header, fun row hrow => ?_⟩
    obtain ⟨r, -, rfl⟩ := List.mem_map.mp hrow
    exact cell_rowTexts (hnan _) _
  have htext : csvText nan n rows =
      Csv.write (csvHeader n :: rows.zipIdx.map fun r => rowTexts (nan r.2) n r.1) := by
    obtain ⟨hheader, hrows⟩ := List.forall_mem_cons.mp hcells
    unfold csvText Csv.write
    rw [List.flatMap_cons, csvLine_eq hheader, List.flatMap_map]
    refine congrArg (Csv.writeRow (csvHeader n) ++ ·) (List.flatMap_congr fun r hr => ?_)
    exact csvLine_eq (hrows _ (List.mem_map_of_mem hr))
  rw [htext, Csv.read_write fun row hrow t ht => (hcells row hrow t ht).plain.2]

theorem loadCsv_csvText {nan : Nat → Nat → Text} (hnan : ∀ i j, Printf.IsNan (nan i j)) (n : Nat)
    (rows : List Energy.Row) : loadCsv (csvText nan n rows) =
      loadSamples (rows.map fun r => Csv.get (csvHeader n) (roundedCells n r)) := by
  have hheader : (csvHeader n).map Bench.strip = csvHeader n := by
    have hmap := List.map_congr_left fun t ht => (cell_header (n := n) t ht).strip
    rwa [List.map_id'] at hmap
  have hrows : (rows.zipIdx.map fun r => rowTexts (nan r.2) n r.1).filter (· ≠ []) =
      rows.zipIdx.map fun r => rowTexts (nan r.2) n r.1 := by
    refine List.filter_eq_self.mpr fun row hrow => ?_
    obtain ⟨r, -, rfl⟩ := List.mem_map.mp hrow
    exact decide_eq_true (rowTexts_ne_nil _)
  obtain ⟨t, ts, hcons⟩ : ∃ t ts, csvHeader n = t :: ts := ⟨_, _, rfl⟩
  have hne : t ≠ [] := (cell_header (n := n) t (by rw [hcons]; exact List.mem_cons_self)).1
  have hindex : rows.zipIdx.map (fun r => Csv.get (csvHeader n) (roundedCells n r.1)) =
      rows.map fun r => Csv.get (csvHeader n) (roundedCells n r) := by
    have hfst : rows.zipIdx.map Prod.fst = rows := List.zipIdx_map_fst ..
    conv_rhs => rw [← hfst]
    rw [List.map_map]
    rfl
  unfold loadCsv
  rw [read_csvText hnan, hcons]
  simp only [← hcons, hheader, hrows, List.map_map, Function.comp_def,
    map_fnum_rowTexts (hnan _)]
  rw [hindex]

/-- Every reading is the sample of `energy`, rounded to the digits of its column. -/
theorem get_roundedCells {n : Nat} {r : Energy.Row} (h : r.Whole n) (name : Text) :
    ∃ d, 0 < d ∧ Csv.get (csvHeader n) (roundedCells n r) name =
      (Csv.get (csvHeader n) r.cells name).map (Decimal.rounded d) := by
  have hlength : r.cells.length = (csvDigits n).length := by
    simp [Energy.Row.cells, csvDigits, h.mhz, h.bzyMhz, h.busyOf]
    omega
  have hcells : (r.cells.zip (csvDigits n)).map Prod.fst = r.cells := List.map_fst_zip hlength.le
  have hget := Csv.get_map Prod.fst (csvHeader n) (r.cells.zip (csvDigits n)) name
  rw [hcells] at hget
  have hrounded := Csv.get_map (fun p : Double × Nat => p.1.map (Decimal.rounded p.2))
    (csvHeader n) (r.cells.zip (csvDigits n)) name
  unfold roundedCells
  rw [hget, hrounded]
  cases hp : ((csvHeader n).zip (r.cells.zip (csvDigits n))).reverse.lookup name with
  | none => exact ⟨1, by decide, rfl⟩
  | some p =>
    have hmem : p ∈ r.cells.zip (csvDigits n) := by
      obtain ⟨before, behind, heq, -⟩ := List.lookup_eq_some_iff.mp hp
      have hpair : (name, p) ∈ ((csvHeader n).zip (r.cells.zip (csvDigits n))).reverse := by
        rw [heq]
        exact List.mem_append_right _ List.mem_cons_self
      exact (List.of_mem_zip (List.mem_reverse.mp hpair)).2
    exact ⟨p.2, csvDigits_pos n _ (List.of_mem_zip hmem).2, rfl⟩

/-- **The model is calibrated on what was measured, up to the digits of the file.** Whatever run
of `energy` wrote the file, and however it wrote its NaNs, `load_samples` gets from the text the
samples and the skipped rows that it would get from the readings, each rounded to the digits of
its column. -/
theorem energy_csv_loaded (o : Energy.Options) (m : Energy.Machine) (rapl : List RaplDom)
    (first : Tick) (ticks : List Tick) (s : Main)
    (hrun : run (sampleStep o m) (start rapl first) ticks = some s) (nan : Nat → Nat → Text)
    (hnan : ∀ i j, Printf.IsNan (nan i j)) :
    loadCsv (csvText nan m.nrCpus s.rows) =
        loadSamples (s.rows.map fun r => Csv.get (csvHeader m.nrCpus) (roundedCells m.nrCpus r)) ∧
      ∀ r ∈ s.rows, ∀ name, ∃ d, 0 < d ∧
        Csv.get (csvHeader m.nrCpus) (roundedCells m.nrCpus r) name =
          (Csv.get (csvHeader m.nrCpus) r.cells name).map (Decimal.rounded d) ∧
        ∀ x, |Decimal.rounded d x - x| ≤ 1 / 2 / 10 ^ d := by
  refine ⟨loadCsv_csvText hnan _ _, fun r hr name => ?_⟩
  obtain ⟨d, hd, hget⟩ := get_roundedCells (rows_whole hrun r hr) name
  exact ⟨d, hd, hget, Decimal.abs_rounded_sub_le d⟩

/-- One sample of a thread that never pauses, on a machine without a temperature. -/
theorem energy_csv_loaded_full :
    ∃ s, run (sampleStep { output := true } ⟨8, some 2000, 100⟩)
        (start fiveDomains (sampleAt 0 0)) [halfTick 100] = some s ∧
      loadCsv (csvText (fun _ _ => "-nan".toList) 8 s.rows) =
        loadSamples (s.rows.map fun r => Csv.get (csvHeader 8) (roundedCells 8 r)) := by
  obtain ⟨s, hs⟩ : ∃ s, run (sampleStep { output := true } ⟨8, some 2000, 100⟩)
      (start fiveDomains (sampleAt 0 0)) [halfTick 100] = some s := ⟨_, rfl⟩
  exact ⟨s, hs, (energy_csv_loaded { output := true } ⟨8, some 2000, 100⟩ fiveDomains
    (sampleAt 0 0) [halfTick 100] s hs (fun _ _ => "-nan".toList) fun _ _ => Or.inr rfl).1⟩

end Rail

end FakeBigLittle
