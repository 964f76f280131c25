import FakeBigLittle.Csv
import FakeBigLittle.Energy.Series
import FakeBigLittle.Rail.Spec
import Mathlib.Tactic.FieldSimp

/-!
# Frequency, from the CSV to the model

The calibration reads the columns that average over idle time, and multiplies them by the
busy fraction once more.
-/

namespace FakeBigLittle

open CString

/-! ## The header -/

namespace Energy

theorem digits_isDigit (cpu : Nat) : ∀ c ∈ Nat.toDigits 10 cpu, c.isDigit = true :=
  fun _ hc => Nat.isDigit_of_mem_toDigits (by omega) (by omega) hc

theorem column_inj {i j : Nat} {what what' : Text} (h : NoDigit what) (h' : NoDigit what')
    (heq : column i what = column j what') : i = j ∧ what = what' := by
  unfold column at heq
  have hrest := List.append_cancel_left heq
  obtain ⟨htake, hdrop⟩ := takeWhile_digits (digits_isDigit i) h
  obtain ⟨htake', hdrop'⟩ := takeWhile_digits (digits_isDigit j) h'
  rw [hrest] at htake hdrop
  have hdigits : Nat.toDigits 10 i = Nat.toDigits 10 j := htake.symm.trans htake'
  refine ⟨?_, hdrop.symm.trans hdrop'⟩
  rw [← Nat.ofDigitChars_ten_toDigits (n := i), hdigits, Nat.ofDigitChars_ten_toDigits]

theorem noDigit_cons {c : Char} {s : Text} (h : c.isDigit = false) : NoDigit (c :: s) := by
  intro d hd
  obtain rfl : c = d := by simpa using hd
  exact h

def kinds : List Text := ["_mhz".toList, "_bzy_mhz".toList, "_busy".toList]

theorem kinds_noDigit : ∀ what ∈ kinds, NoDigit what := by
  intro what hwhat
  simp only [kinds, List.mem_cons, List.not_mem_nil, or_false] at hwhat
  obtain rfl | rfl | rfl := hwhat <;> exact noDigit_cons (by decide)

def fixedColumns : List Text :=
  ["t_s", "pkg_w", "core_w", "uncore_w", "dram_w", "psys_w", "rest_w", "pkg_c"].map String.toList

theorem csvHeader_eq (n : Nat) : csvHeader n =
    fixedColumns ++ kinds.flatMap fun what => (List.range n).map fun cpu => column cpu what := by
  simp [csvHeader, fixedColumns, kinds]

theorem column_notMem_fixed (cpu : Nat) (what : Text) : column cpu what ∉ fixedColumns := by
  intro h
  have hp : (column cpu what).tail.head? = some 'p' := rfl
  have hfixed : ∀ name ∈ fixedColumns, name.tail.head? ≠ some 'p' := by decide
  exact hfixed _ h hp

theorem csvHeader_nodup (n : Nat) : (csvHeader n).Nodup := by
  rw [csvHeader_eq]
  refine List.Nodup.append (by decide) ?_ ?_
  · rw [List.nodup_flatMap]
    refine ⟨fun what hwhat => ?_, ?_⟩
    · refine (List.nodup_range).map_on fun i _ j _ heq => ?_
      exact (column_inj (kinds_noDigit _ hwhat) (kinds_noDigit _ hwhat) heq).1
    · have hkinds : kinds.Nodup := by decide
      refine hkinds.imp_of_mem fun {what what'} hwhat hwhat' hne => ?_
      intro name hname hname'
      obtain ⟨i, -, rfl⟩ := List.mem_map.mp hname
      obtain ⟨j, -, heq⟩ := List.mem_map.mp hname'
      exact hne (column_inj (kinds_noDigit _ hwhat) (kinds_noDigit _ hwhat') heq.symm).2
  · intro name hfixed hcolumn
    obtain ⟨what, -, hmem⟩ := List.mem_flatMap.mp hcolumn
    obtain ⟨cpu, -, rfl⟩ := List.mem_map.mp hmem
    exact column_notMem_fixed cpu what hfixed

theorem column_mem_csvHeader {n cpu : Nat} {what : Text} (hwhat : what ∈ kinds) :
    column cpu what ∈ csvHeader n ↔ cpu < n := by
  rw [csvHeader_eq, List.mem_append]
  constructor
  · rintro (h | h)
    · exact absurd h (column_notMem_fixed cpu what)
    · obtain ⟨what', hwhat', h⟩ := List.mem_flatMap.mp h
      obtain ⟨j, hj, heq⟩ := List.mem_map.mp h
      obtain ⟨rfl, -⟩ := column_inj (kinds_noDigit _ hwhat') (kinds_noDigit _ hwhat) heq
      exact List.mem_range.mp hj
  · intro hcpu
    refine Or.inr (List.mem_flatMap.mpr ⟨what, hwhat, ?_⟩)
    exact List.mem_map.mpr ⟨cpu, List.mem_range.mpr hcpu, rfl⟩

/-! ## The cells of a row -/

section Cells

variable {o : Options} {m : Machine} {s : Main} {tick : Tick} {j : Joules} {cpu : Nat}

/-- What `csv.DictReader` finds in the row. -/
def cellOf (o : Options) (m : Machine) (s : Main) (tick : Tick) (j : Joules) (name : Text) :
    Option ℚ :=
  Csv.get (csvHeader m.nrCpus) (rowOf o m s tick j).cells name

theorem cells_length : (csvHeader m.nrCpus).length = (rowOf o m s tick j).cells.length := by
  simp [csvHeader, Row.cells, rowOf]

theorem zip_cells : (csvHeader m.nrCpus).zip (rowOf o m s tick j).cells =
    fixedColumns.zip ((rowOf o m s tick j).cells.take 8) ++
    (List.range m.nrCpus).map (fun cpu =>
      (column cpu "_mhz".toList, avg m.tscMhz (cpuDeltas s tick cpu))) ++
    (List.range m.nrCpus).map (fun cpu =>
      (column cpu "_bzy_mhz".toList, bzy m.tscMhz (cpuDeltas s tick cpu))) ++
    (List.range m.nrCpus).map (fun cpu =>
      (column cpu "_busy".toList, busy (cpuDeltas s tick cpu))) := by
  unfold csvHeader Row.cells
  rw [List.zip_append (by simp [rowOf]), List.zip_append (by simp [rowOf]),
    List.zip_append (by simp)]
  unfold rowOf
  simp only [List.zip_map']
  rfl

theorem cellOf_mhz : cellOf o m s tick j (column cpu "_mhz".toList) =
    if cpu < m.nrCpus then avg m.tscMhz (cpuDeltas s tick cpu) else none := by
  unfold cellOf
  split_ifs with hcpu
  · apply Csv.get_of_mem (csvHeader_nodup _) cells_length
    rw [zip_cells]
    simp only [List.mem_append, List.mem_map, List.mem_range]
    exact Or.inl (Or.inl (Or.inr ⟨cpu, hcpu, rfl⟩))
  · exact Csv.get_of_notMem fun h => hcpu ((column_mem_csvHeader (by decide)).mp h)

theorem cellOf_busy : cellOf o m s tick j (column cpu "_busy".toList) =
    if cpu < m.nrCpus then busy (cpuDeltas s tick cpu) else none := by
  unfold cellOf
  split_ifs with hcpu
  · apply Csv.get_of_mem (csvHeader_nodup _) cells_length
    rw [zip_cells]
    simp only [List.mem_append, List.mem_map, List.mem_range]
    exact Or.inr ⟨cpu, hcpu, rfl⟩
  · exact Csv.get_of_notMem fun h => hcpu ((column_mem_csvHeader (by decide)).mp h)

end Cells

theorem ratio_some {b : UInt64} (hb : 0 < b) (x : ℚ) (a : UInt64) :
    ratio (some x) a b = some (x * a.toNat / b.toNat) := by
  have hne : (b.toNat : ℚ) ≠ 0 := by
    rw [Nat.cast_ne_zero]
    exact (UInt64.lt_iff_toNat_lt.mp hb).ne'
  unfold ratio per
  rw [Option.bind_some, if_neg hne, Option.map_some]

end Energy

/-! ## The pair that is read back -/

namespace Rail

open Energy

section Fold

variable {mhzOf busyOf : Nat → Option ℚ}

theorem foldSiblings_eq {pc : Nat} (hpc : pc < nPhysCores) {x y : ℚ} (hx : 0 ≤ x) (hy : y ≤ 1)
    {cpu sib : Nat} (hpair : cpu = pc ∧ sib = pc + 4 ∨ cpu = pc + 4 ∧ sib = pc)
    (hmhz : mhzOf cpu = some x) (hbusy : busyOf cpu = some y)
    (hmhz' : mhzOf sib = none ∨ mhzOf sib = some 0)
    (hbusy' : busyOf sib = none ∨ busyOf sib = some 0) :
    foldSiblings mhzOf busyOf pc = some (x * mhz, y) := by
  unfold nPhysCores at hpc
  have hsibs : [pc, pc + smtSiblingStride].filter (· < nLogicalCpus) = [pc, pc + 4] := by
    have hlow : pc < 8 := by omega
    have hhigh : pc + 4 < 8 := by omega
    simp [smtSiblingStride, nLogicalCpus, hlow, hhigh]
  unfold foldSiblings
  simp only [hsibs]
  rcases hpair with ⟨rfl, rfl⟩ | ⟨rfl, rfl⟩ <;> rcases hmhz' with hm | hm <;>
    rcases hbusy' with hb | hb <;> simp [hmhz, hbusy, hm, hb, maxOf, hx, hy]

theorem getElem?_mapM {α β : Type} {f : α → Option β} {l : List α} {r : List β}
    (h : l.mapM f = some r) (i : Nat) : r[i]? = (l[i]?).bind f := by
  induction l generalizing r i with
  | nil =>
    obtain rfl : [] = r := by simpa using h
    rfl
  | cons a l ih =>
    rw [List.mapM_cons] at h
    obtain ⟨b, hb, h⟩ := Option.bind_eq_some_iff.mp h
    obtain ⟨bs, hbs, h⟩ := Option.bind_eq_some_iff.mp h
    obtain rfl : b :: bs = r := by simpa using h
    cases i with
    | zero => simp [hb]
    | succ i => simpa using ih hbs i

theorem loadRow_phys {cell : Text → Option ℚ} {sample : Sample ℚ} (h : loadRow cell = some sample)
    {pc : Nat} (hpc : pc < nPhysCores) :
    sample.phys[pc]? = foldSiblings (fun cpu => cell (Rail.column cpu "_mhz".toList))
      (fun cpu => cell (Rail.column cpu "_busy".toList)) pc := by
  unfold loadRow at h
  split at h
  · simp at h
  · simp only at h
    split_ifs at h
    obtain ⟨phys, hphys, rfl⟩ := Option.map_eq_some_iff.mp h
    rw [getElem?_mapM hphys, List.getElem?_range hpc, Option.bind_some]

end Fold

/-- The other thread of the core. -/
def sibling (cpu : Nat) : Nat := if cpu < nPhysCores then cpu + smtSiblingStride else cpu - 4

/-- The counters of `sib` did not move, or it is no CPU of the machine. -/
def Idle (m : Energy.Machine) (s : Main) (tick : Tick) (sib : Nat) : Prop :=
  sib < m.nrCpus → (cpuDeltas s tick sib).da = 0 ∧ (cpuDeltas s tick sib).dm = 0

section Pair

variable {o : Energy.Options} {m : Energy.Machine} {s : Main} {tick : Tick} {j : Joules} {cpu : Nat}

theorem cellOf_mhz_idle (h : Idle m s tick cpu) :
    cellOf o m s tick j (Rail.column cpu "_mhz".toList) = none ∨
      cellOf o m s tick j (Rail.column cpu "_mhz".toList) = some 0 := by
  rw [show Rail.column cpu "_mhz".toList = Energy.column cpu "_mhz".toList from rfl, cellOf_mhz]
  split_ifs with hcpu
  · unfold avg
    rw [(h hcpu).1]
    exact ratio_zero _ _
  · exact Or.inl rfl

theorem cellOf_busy_idle (h : Idle m s tick cpu) :
    cellOf o m s tick j (Rail.column cpu "_busy".toList) = none ∨
      cellOf o m s tick j (Rail.column cpu "_busy".toList) = some 0 := by
  rw [show Rail.column cpu "_busy".toList = Energy.column cpu "_busy".toList from rfl, cellOf_busy]
  split_ifs with hcpu
  · unfold busy
    rw [(h hcpu).2]
    exact ratio_zero _ _
  · exact Or.inl rfl

/-- What `load_samples` makes of a core with one running thread. -/
theorem frequency_pair {f : ℚ} (hf : 0 < f) (hm : m.tscMhz = some f) (hcpu : cpu < nLogicalCpus)
    (hn : cpu < m.nrCpus) (hdm : 0 < (cpuDeltas s tick cpu).dm)
    (hle : (cpuDeltas s tick cpu).dm ≤ (cpuDeltas s tick cpu).dtsc)
    (hidle : Idle m s tick (sibling cpu)) {sample : Sample ℚ}
    (hload : loadRow (cellOf o m s tick j) = some sample) :
    sample.phys[cpu % 4]? = some
      (f * (cpuDeltas s tick cpu).da.toNat / (cpuDeltas s tick cpu).dtsc.toNat * mhz,
        ((cpuDeltas s tick cpu).dm.toNat : ℚ) / (cpuDeltas s tick cpu).dtsc.toNat) := by
  have htsc : 0 < (cpuDeltas s tick cpu).dtsc := UInt64.lt_of_lt_of_le hdm hle
  have hmhz : cellOf o m s tick j (Rail.column cpu "_mhz".toList) =
      some (f * (cpuDeltas s tick cpu).da.toNat / (cpuDeltas s tick cpu).dtsc.toNat) := by
    rw [show Rail.column cpu "_mhz".toList = Energy.column cpu "_mhz".toList from rfl, cellOf_mhz,
      if_pos hn, avg, hm, ratio_some htsc]
  have hbusy : cellOf o m s tick j (Rail.column cpu "_busy".toList) =
      some (((cpuDeltas s tick cpu).dm.toNat : ℚ) / (cpuDeltas s tick cpu).dtsc.toNat) := by
    rw [show Rail.column cpu "_busy".toList = Energy.column cpu "_busy".toList from rfl,
      cellOf_busy, if_pos hn, busy, ratio_some htsc, one_mul]
  have hfraction :
      ((cpuDeltas s tick cpu).dm.toNat : ℚ) / (cpuDeltas s tick cpu).dtsc.toNat ≤ 1 := by
    apply div_le_one_of_le₀ _ (Nat.cast_nonneg _)
    exact_mod_cast UInt64.le_iff_toNat_le.mp hle
  have hpair : cpu = cpu % 4 ∧ sibling cpu = cpu % 4 + 4 ∨
      cpu = cpu % 4 + 4 ∧ sibling cpu = cpu % 4 := by
    unfold sibling nPhysCores smtSiblingStride
    unfold nLogicalCpus at hcpu
    split_ifs <;> omega
  have hpc : cpu % 4 < nPhysCores := Nat.mod_lt _ (by decide)
  rw [loadRow_phys hload hpc]
  exact foldSiblings_eq hpc (by positivity) hfraction hpair hmhz hbusy
    (cellOf_mhz_idle hidle) (cellOf_busy_idle hidle)

end Pair

theorem rates_eq_iff {f a b c k : ℚ} (hf : 0 < f) (hb : 0 < b) (hc : 0 < c) (hk : 0 < k) :
    f * a / c * k = f * a / b * k ∧ f * a / c * k * (b / c) = f * a / c * k ↔ a = 0 ∨ b = c := by
  constructor
  · rintro ⟨hclock, -⟩
    have hrates : a * b = a * c := by
      field_simp at hclock
      exact hclock
    exact (mul_eq_mul_left_iff.mp hrates).symm
  · rintro (rfl | rfl)
    · simp
    · rw [div_self hb.ne', mul_one]
      exact ⟨rfl, rfl⟩

/-- **The pair is right only when the CPU did nothing or never paused.** -/
theorem frequency_pair_iff (o : Energy.Options) (m : Energy.Machine) (s s' : Main) (tick : Tick)
    (hstep : sampleStep o m s tick = some s') (r : Energy.Row) (hrow : s'.rows = s.rows ++ [r])
    (f : ℚ) (hf : 0 < f) (hm : m.tscMhz = some f) (cpu : Nat) (hcpu : cpu < nLogicalCpus)
    (hn : cpu < m.nrCpus) (hdm : 0 < (cpuDeltas s tick cpu).dm)
    (hle : (cpuDeltas s tick cpu).dm ≤ (cpuDeltas s tick cpu).dtsc)
    (hidle : Idle m s tick (sibling cpu)) (sample : Sample ℚ)
    (hload : loadRow (Csv.get (csvHeader m.nrCpus) r.cells) = some sample) :
    let d := cpuDeltas s tick cpu
    ∃ core, sample.phys[cpu % 4]? = some core ∧
      ((core.1 = f * d.da.toNat / d.dm.toNat * mhz ∧
        core.1 * core.2 = f * d.da.toNat / d.dtsc.toNat * mhz) ↔
        d.da = 0 ∨ d.dm = d.dtsc) := by
  intro d
  obtain ⟨-, ⟨-, rfl⟩ | ⟨rapl, j, -, rfl⟩⟩ := sampleStep_cases hstep
  · simp at hrow
  have hr : r = rowOf o m s tick j := by
    unfold sampled at hrow
    simp only at hrow
    split_ifs at hrow
    · simpa using hrow.symm
    · simp at hrow
  subst hr
  refine ⟨_, frequency_pair hf hm hcpu hn hdm hle hidle hload, ?_⟩
  have hpos : ∀ x : UInt64, 0 < x → (0 : ℚ) < x.toNat := by
    intro x hx
    exact_mod_cast UInt64.lt_iff_toNat_lt.mp hx
  have hda : d.da = 0 ↔ (d.da.toNat : ℚ) = 0 := by
    rw [Nat.cast_eq_zero]
    exact UInt64.toNat_inj.symm
  have hsame : d.dm = d.dtsc ↔ (d.dm.toNat : ℚ) = d.dtsc.toNat := by
    rw [Nat.cast_inj, UInt64.toNat_inj]
  rw [hda, hsame]
  exact rates_eq_iff hf (hpos _ hdm) (hpos _ (UInt64.lt_of_lt_of_le hdm hle))
    (by unfold mhz; norm_num)

-- Each core runs one thread, for `mperf` of 100 ticks of a 2 GHz clock.
def halfTick (mperf : UInt64) : Tick :=
  { sampleAt (1 / 5) 3000000 with
    aperf := fun cpu => some (if cpu < 4 then 60 else 0)
    mperf := fun cpu => some (if cpu < 4 then mperf else 0)
    tsc := fun _ => 100 }

def halfStep (mperf : UInt64) : Option Main :=
  sampleStep { output := true } ⟨8, some 2000, 100⟩ (start fiveDomains (sampleAt 0 0))
    (halfTick mperf)

def halfRow (mperf : UInt64) : Energy.Row :=
  rowOf { output := true } ⟨8, some 2000, 100⟩ (start fiveDomains (sampleAt 0 0)) (halfTick mperf)
    ⟨some 3, some 0, some 0, some 0, some 0⟩

/-- A thread that never pauses is read back as it runs. -/
theorem frequency_pair_iff_full :
    ∃ sample core, loadRow (Csv.get (csvHeader 8) (halfRow 100).cells) = some sample ∧
      sample.phys[0]? = some core ∧ core.1 = 2000 * 60 / 100 * mhz ∧
      core.1 * core.2 = 2000 * 60 / 100 * mhz := by
  have hsome : (loadRow (Csv.get (csvHeader 8) (halfRow 100).cells)).isSome = true := by
    decide +kernel
  have hrows : (halfStep 100).map (·.rows) = some [halfRow 100] := by decide +kernel
  obtain ⟨sample, hload⟩ := Option.isSome_iff_exists.mp hsome
  obtain ⟨s', hstep, hrow⟩ := Option.map_eq_some_iff.mp hrows
  obtain ⟨core, hcore, hiff⟩ := frequency_pair_iff { output := true } ⟨8, some 2000, 100⟩
    (start fiveDomains (sampleAt 0 0)) s' (halfTick 100) hstep (halfRow 100) hrow 2000
    (by norm_num) rfl 0 (by decide) (by decide) (by decide) (by decide) (fun _ => by decide)
    sample hload
  exact ⟨sample, core, hload, hcore, hiff.mpr (Or.inr (by decide))⟩

/-- One that runs half of the time, at 2.4 GHz, is read back at 1.2 GHz, and as delivering
0.6 GHz where it delivers 1.2. -/
theorem frequency_pair_fails :
    (halfStep 50).map (·.rows) = some [halfRow 50] ∧
      ((loadRow (Csv.get (csvHeader 8) (halfRow 50).cells)).bind fun sample => sample.phys[0]?) =
        some (1200 * mhz, 1 / 2) ∧
      (1200 * mhz : ℚ) ≠ 2000 * 60 / 50 * mhz ∧
      (1200 * mhz * (1 / 2) : ℚ) ≠ 2000 * 60 / 100 * mhz := by
  decide +kernel

end Rail

end FakeBigLittle
