import FakeBigLittle.CString
import Mathlib.Algebra.Order.Field.Rat
import Mathlib.Data.UInt

/-!
# The sampler

`src/energy.c`: the RAPL counters, the MSRs, and the sampling loop of `main`. A double is a
rational number, or nothing when it is NaN.
-/

namespace FakeBigLittle

open CString

namespace Energy

def maxRapl : Nat := 8

-- A double without its rounding; `none` is NaN.
abbrev Double := Option ℚ

/-- `x / d`; what a division by zero gives is not a number. -/
def per (x : Double) (d : ℚ) : Double := if d = 0 then none else x.map (· / d)

/-! ## RAPL -/

structure RaplDom where
  name : Text
  maxRangeUj : UInt64
  lastUj : UInt64
  totalJ : ℚ
  present : Bool

/-- What `add_rapl` finds in a directory of `powercap`; `denied` where the counter may not
be read. -/
structure RaplDir where
  name : Option Text
  maxRangeUj : Option UInt64
  energyUj : Option UInt64
  denied : Bool

-- `none` is `die`
def addRapl (rapl : List RaplDom) (dir : RaplDir) : Option (List RaplDom) :=
  if rapl.length ≥ maxRapl then some rapl
  else
    match dir.name, dir.energyUj with
    | none, _ => some rapl
    | some _, none => if dir.denied then none else some rapl
    | some name, some v => some (rapl ++ [⟨name, dir.maxRangeUj.getD 0, v, 0, true⟩])

/-- `discover_rapl`: `dirs` are the directories that it does not skip. -/
def discoverRapl (dirs : List RaplDir) : Option (List RaplDom) :=
  (dirs.foldlM addRapl []).bind fun rapl => if rapl = [] then none else some rapl

def RaplDom.unwrap (d : RaplDom) (v : UInt64) : UInt64 :=
  if v ≥ d.lastUj then v - d.lastUj
  else if d.maxRangeUj ≠ 0 then d.maxRangeUj - d.lastUj + v
  else 0

def microJ : ℚ := 1000000

/-- `rapl_delta_j` with what `read_u64_file` gives. -/
def raplDeltaJ (d : RaplDom) (read : Option UInt64) : RaplDom × Double :=
  match d.present, read with
  | false, _ | true, none => (d, none)
  | true, some v =>
    let joules := ((d.unwrap v).toNat : ℚ) / microJ
    ({ d with lastUj := v, totalJ := d.totalJ + joules }, some joules)

-- The loops of `main` that prime the counters.
def prime (rapl : List RaplDom) (read : Nat → Option UInt64) : List RaplDom :=
  rapl.mapIdx fun i d => { (raplDeltaJ d (read i)).1 with totalJ := 0 }

def findDom (rapl : List RaplDom) (name : Text) : Option Nat :=
  rapl.findIdx? fun d => d.name == name

def domJ (rapl : List RaplDom) (name : Text) : Double :=
  (rapl.find? fun d => d.name == name).map (·.totalJ)

/-- `rapl_delta_j(find_dom(name))`; `none` where that dereferences NULL. -/
def deltaOf (rapl : List RaplDom) (read : Nat → Option UInt64) (name : Text) :
    Option (List RaplDom × Double) :=
  match findDom rapl name with
  | none => none
  | some i => (rapl[i]?).map fun d =>
    (rapl.set i (raplDeltaJ d (read i)).1, (raplDeltaJ d (read i)).2)

/-! ## MSRs -/

structure CpuSample where
  aperf : UInt64
  mperf : UInt64
  tsc : UInt64

def initTjmax : Option UInt64 → Int
  | none => 100
  | some v => ((v >>> 16) &&& 0xff).toNat

def pkgTempC (tjmax : Int) : Option UInt64 → Double
  | none => none
  | some v => some ((tjmax : ℚ) - ((v >>> 16) &&& 0x7f).toNat)

/-- `init_tsc_mhz` with what it reads of `base_frequency` and `bios_limit`. -/
def initTscMhz (base bios : Option UInt64) : Double :=
  match base.filter (· > 0), bios.filter (· > 0) with
  | some khz, _ => some ((khz.toNat : ℚ) / 1000)
  | none, some khz => some ((khz.toNat : ℚ) / 1000)
  | none, none => none

/-! ## The loop -/

/-- The options of `main`, behind `atof`. -/
structure Options where
  intervalMs : ℚ := 200
  output : Bool := false
  duration : ℚ := 0
  label : Text := []
  cmd : Bool := false

structure Machine where
  nrCpus : Nat
  tscMhz : Double
  tjmax : Int

/-- What a round of the loop reads: the clock since `t_start`, the counter of each domain,
the MSRs of each CPU, and whether the child has ended. -/
structure Tick where
  t : ℚ
  energyUj : Nat → Option UInt64
  therm : Option UInt64
  aperf : Nat → Option UInt64
  mperf : Nat → Option UInt64
  tsc : Nat → UInt64
  childDone : Bool

-- `rdmsr` leaves a zero where it fails.
def sampleCpus (tick : Tick) (cpu : Nat) : CpuSample where
  aperf := (tick.aperf cpu).getD 0
  mperf := (tick.mperf cpu).getD 0
  tsc := tick.tsc cpu

/-- The deltas of a CPU over an interval. -/
structure Deltas where
  da : UInt64
  dm : UInt64
  dtsc : UInt64

def deltas (prev cur : CpuSample) : Deltas :=
  ⟨cur.aperf - prev.aperf, cur.mperf - prev.mperf, cur.tsc - prev.tsc⟩

def ratio (scale : Double) (a b : UInt64) : Double :=
  scale.bind fun x => per (some (x * a.toNat)) b.toNat

def avg (tscMhz : Double) (d : Deltas) : Double := ratio tscMhz d.da d.dtsc
def bzy (tscMhz : Double) (d : Deltas) : Double := ratio tscMhz d.da d.dm
def busy (d : Deltas) : Double := ratio (some 1) d.dm d.dtsc

-- `if (!isnan(x)) sum += x`
def addTo (sum : ℚ) (x : Double) : ℚ := sum + x.getD 0

structure Row where
  t : ℚ
  pkg : Double
  core : Double
  uncore : Double
  dram : Double
  psys : Double
  rest : Double
  temp : Double
  mhz : List Double
  bzyMhz : List Double
  busyOf : List Double
  deriving DecidableEq

/-- The name of a column of `cpu`. -/
def column (cpu : Nat) (what : Text) : Text := "cpu".toList ++ (Nat.toDigits 10 cpu ++ what)

-- The header of the CSV.
def csvHeader (nrCpus : Nat) : List Text :=
  ["t_s", "pkg_w", "core_w", "uncore_w", "dram_w", "psys_w", "rest_w", "pkg_c"].map String.toList ++
  (List.range nrCpus).map (fun cpu => column cpu "_mhz".toList) ++
  (List.range nrCpus).map (fun cpu => column cpu "_bzy_mhz".toList) ++
  (List.range nrCpus).map (fun cpu => column cpu "_busy".toList)

-- The cells of a row, in the order of the header.
def Row.cells (r : Row) : List Double :=
  [some r.t, r.pkg, r.core, r.uncore, r.dram, r.psys, r.rest, r.temp] ++
    r.mhz ++ r.bzyMhz ++ r.busyOf

inductive Pc where
  | sampling
  | done
  /-- a NULL was dereferenced -/
  | crashed
  deriving DecidableEq

structure Main where
  pc : Pc
  rapl : List RaplDom
  prev : Nat → CpuSample
  mhzSum : Nat → ℚ
  bzySum : Nat → ℚ
  busySum : Nat → ℚ
  tempSum : ℚ
  tempMax : ℚ
  nsamples : Nat
  rows : List Row

/-- `main` at `t_start`. -/
def start (rapl : List RaplDom) (first : Tick) : Main where
  pc := .sampling
  rapl := prime rapl first.energyUj
  prev := sampleCpus first
  mhzSum := fun _ => 0
  bzySum := fun _ => 0
  busySum := fun _ => 0
  tempSum := 0
  tempMax := -1000000000
  nsamples := 0
  rows := []

/-- The joules that the five calls of `rapl_delta_j` return. -/
structure Joules where
  pkg : Double
  core : Double
  uncore : Double
  dram : Double
  psys : Double

def readRapl (rapl : List RaplDom) (read : Nat → Option UInt64) :
    Option (List RaplDom × Joules) := do
  let (rapl, pkg) ← deltaOf rapl read "package-0".toList
  let (rapl, core) ← deltaOf rapl read "core".toList
  let (rapl, uncore) ← deltaOf rapl read "uncore".toList
  let (rapl, dram) ← deltaOf rapl read "dram".toList
  let (rapl, psys) ← deltaOf rapl read "psys".toList
  some (rapl, ⟨pkg, core, uncore, dram, psys⟩)

-- `pkg - (isnan(core) ? 0 : core) - (isnan(uncore) ? 0 : uncore)`
def restOf (pkg core uncore : Double) : Double := pkg.map fun p => p - core.getD 0 - uncore.getD 0

def dtOf (o : Options) : ℚ := o.intervalMs / 1000

def cpuDeltas (s : Main) (tick : Tick) (cpu : Nat) : Deltas :=
  deltas (s.prev cpu) (sampleCpus tick cpu)

def rowOf (o : Options) (m : Machine) (s : Main) (tick : Tick) (j : Joules) : Row where
  t := tick.t
  pkg := per j.pkg (dtOf o)
  core := per j.core (dtOf o)
  uncore := per j.uncore (dtOf o)
  dram := per j.dram (dtOf o)
  psys := per j.psys (dtOf o)
  rest := restOf (per j.pkg (dtOf o)) (per j.core (dtOf o)) (per j.uncore (dtOf o))
  temp := pkgTempC m.tjmax tick.therm
  mhz := (List.range m.nrCpus).map fun cpu => avg m.tscMhz (cpuDeltas s tick cpu)
  bzyMhz := (List.range m.nrCpus).map fun cpu => bzy m.tscMhz (cpuDeltas s tick cpu)
  busyOf := (List.range m.nrCpus).map fun cpu => busy (cpuDeltas s tick cpu)

-- The end of a round: the child has ended, or the duration is over.
def isOver (o : Options) (tick : Tick) : Bool :=
  if o.cmd then tick.childDone else decide (0 < o.duration ∧ o.duration ≤ tick.t)

-- What a round leaves behind once it has the joules.
def sampled (o : Options) (m : Machine) (s : Main) (tick : Tick) (rapl : List RaplDom)
    (j : Joules) : Main where
  pc := if isOver o tick then .done else .sampling
  rapl := rapl
  prev := sampleCpus tick
  mhzSum := fun cpu => addTo (s.mhzSum cpu) (avg m.tscMhz (cpuDeltas s tick cpu))
  bzySum := fun cpu => addTo (s.bzySum cpu) (bzy m.tscMhz (cpuDeltas s tick cpu))
  busySum := fun cpu => addTo (s.busySum cpu) (busy (cpuDeltas s tick cpu))
  tempSum := addTo s.tempSum (pkgTempC m.tjmax tick.therm)
  tempMax := max s.tempMax ((pkgTempC m.tjmax tick.therm).getD s.tempMax)
  nsamples := s.nsamples + 1
  rows := if o.output then s.rows ++ [rowOf o m s tick j] else s.rows

/-- A round of the loop. -/
def sampleStep (o : Options) (m : Machine) (s : Main) (tick : Tick) : Option Main :=
  if s.pc ≠ .sampling then none
  else
    match readRapl s.rapl tick.energyUj with
    | none => some { s with pc := .crashed }
    | some (rapl, j) => some (sampled o m s tick rapl j)

theorem sampleStep_cases {o : Options} {m : Machine} {s t : Main} {tick : Tick}
    (h : sampleStep o m s tick = some t) : s.pc = .sampling ∧
      ((readRapl s.rapl tick.energyUj = none ∧ t = { s with pc := .crashed }) ∨
      ∃ rapl j, readRapl s.rapl tick.energyUj = some (rapl, j) ∧
        t = sampled o m s tick rapl j) := by
  unfold sampleStep at h
  by_cases hpc : s.pc = .sampling
  · rw [if_neg (not_not.mpr hpc)] at h
    refine ⟨hpc, ?_⟩
    split at h
    · rename_i hcrash
      exact Or.inl ⟨hcrash, (Option.some.inj h).symm⟩
    · rename_i rapl j hread
      exact Or.inr ⟨rapl, j, hread, (Option.some.inj h).symm⟩
  · simp [if_pos hpc] at h

end Energy

end FakeBigLittle
