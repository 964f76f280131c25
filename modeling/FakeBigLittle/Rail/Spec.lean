import FakeBigLittle.CString
import FakeBigLittle.Piecewise
import Mathlib.Algebra.BigOperators.Group.List.Basic
import Mathlib.Data.Rat.Cast.OfScientific

/-!
# The rail model

`sim/rail_model.py`: the power of a package, the samples that it is calibrated with, and what
the calibration fits. The numbers are those of any ordered field, with the two functions of
the `math` library as parameters.
-/

namespace FakeBigLittle

open CString

namespace Rail

variable {K : Type} [Field K] [LinearOrder K]

/-- `math.exp`, and `2.0 ** x`. -/
structure Libm (K : Type) where
  exp : K → K
  pow2 : K → K

/-! ## Constants -/

def nPhysCores : Nat := 4
def nLogicalCpus : Nat := 8
def smtSiblingStride : Nat := 4

def fMinHz : K := 400000000
def fRingMinHz : K := 800000000
def fRingMaxHz : K := 3900000000
def ghz : K := 1000000000
def mhz : K := 1000000

-- `VF_ANCHORS`, the first one and the others
def vfFirst : K × K := (400, 0.650)

def vfAnchors : List (K × K) :=
  [(800, 0.680), (1200, 0.725), (1800, 0.830), (2400, 0.925), (3000, 1.020), (3400, 1.075),
    (3700, 1.115), (4000, 1.150)]

def vtEffV : K := 0.300
def tRefC : K := 60
def tDefaultC : K := 60
def leakTempDoublingC : K := 25
def c6LeakResidual : K := 0.10
def activityC6Eps : K := 0.000001
def pPkgC6W : K := 0.15
def cRingWPerV2Ghz : K := 0.55
def kUncoreTrafficWPerGhz : K := 0.12

/-- `PARAMS` -/
structure Params (K : Type) where
  cEff : K
  kLeak : K
  pSaFloor : K

-- `PARAMS` before a calibration
def priorParams : Params K := ⟨2.20, 0.01035, 0.90⟩

/-! ## Physics -/

def vOfF (fHz : K) : K := Piecewise.interpolate vfFirst vfAnchors (fHz / mhz)

def leakShape (m : Libm K) (v : K) : K := v * m.exp (v / vtEffV)

def leakTempFactor (m : Libm K) (tempC : K) : K := m.pow2 ((tempC - tRefC) / leakTempDoublingC)

def coreLeakageW (m : Libm K) (params : Params K) (v : K) (active : Bool) (tempC : K) : K :=
  let g := params.kLeak * leakShape m v * leakTempFactor m tempC
  if active then g else g * c6LeakResidual

-- A core: its frequency in Hz, and its activity.
abbrev Core (K : Type) := K × K

def isActive (core : Core K) : Bool := core.2 > activityC6Eps

-- `max((f for f, _ in cores), default=d)`
def maxFreq (d : K) : List (Core K) → K
  | [] => d
  | core :: cores => cores.foldl (fun f c => max f c.1) core.1

/-- What `package_power` returns. -/
structure Power (K : Type) where
  dyn : K
  leak : K
  uncore : K
  uncoreSa : K
  uncoreRing : K
  uncoreTraffic : K
  total : K
  vRail : K
  fMaxActiveHz : K

def ringHz (fMaxActive : K) : K := min (max fMaxActive fRingMinHz) fRingMaxHz

def ringPower (fMaxActive : K) : K :=
  cRingWPerV2Ghz * vOfF (ringHz fMaxActive) ^ 2 * (ringHz fMaxActive / ghz)

def aggActiveGhz (cores : List (Core K)) : K :=
  ((cores.filter isActive).map fun core => core.2 * core.1 / ghz).sum

-- The voltage of a core.
def vCore (sharedRail : Bool) (vRail : K) (core : Core K) : K :=
  if sharedRail then vRail else vOfF (if isActive core then core.1 else fMinHz)

def dynOf (params : Params K) (sharedRail : Bool) (vRail : K) (cores : List (Core K)) : K :=
  (cores.map fun core =>
    if isActive core then
      core.2 * params.cEff * vCore sharedRail vRail core ^ 2 * (core.1 / ghz)
    else 0).sum

def leakOf (m : Libm K) (params : Params K) (sharedRail : Bool) (vRail tempC : K)
    (cores : List (Core K)) : K :=
  (cores.map fun core =>
    coreLeakageW m params (vCore sharedRail vRail core) (isActive core) tempC).sum

def packagePower (m : Libm K) (params : Params K) (cores : List (Core K)) (sharedRail : Bool)
    (tempC : K) : Power K :=
  if cores.filter isActive = [] then
    -- the whole package is idle
    let leak := (cores.map fun _ => coreLeakageW m params (vOfF fMinHz) false tempC).sum
    { dyn := 0, leak := leak, uncore := pPkgC6W, uncoreSa := pPkgC6W, uncoreRing := 0,
      uncoreTraffic := 0, total := leak + pPkgC6W, vRail := vOfF fMinHz, fMaxActiveHz := 0 }
  else
    let fMaxActive := maxFreq fMinHz (cores.filter isActive)
    let vRail := vOfF fMaxActive
    let dyn := dynOf params sharedRail vRail cores
    let leak := leakOf m params sharedRail vRail tempC cores
    let uncoreTraffic := kUncoreTrafficWPerGhz * aggActiveGhz cores
    let uncore := params.pSaFloor + ringPower fMaxActive + uncoreTraffic
    { dyn := dyn, leak := leak, uncore := uncore, uncoreSa := params.pSaFloor,
      uncoreRing := ringPower fMaxActive, uncoreTraffic := uncoreTraffic,
      total := dyn + leak + uncore, vRail := vRail, fMaxActiveHz := fMaxActive }

/-! ## Samples -/

structure Sample (K : Type) where
  tS : Option K
  pkgW : K
  coreW : Option K
  uncoreW : Option K
  dramW : Option K
  psysW : Option K
  tempC : K
  phys : List (Core K)

/-- The name of a column of `cpu`. -/
def column (cpu : Nat) (what : Text) : Text := "cpu".toList ++ (Nat.toDigits 10 cpu ++ what)

-- `max(fs)` of the readings that are there; `none` where none is
def maxOf : List K → Option K
  | [] => none
  | x :: xs => some (xs.foldl max x)

/-- A physical core from the columns of its siblings; `none` where neither has a frequency. -/
def foldSiblings (mhzOf busyOf : Nat → Option K) (pc : Nat) : Option (Core K) :=
  let sibs := [pc, pc + smtSiblingStride].filter (· < nLogicalCpus)
  (maxOf (sibs.filterMap mhzOf)).map fun f =>
    (f * mhz, if sibs.filterMap busyOf = [] then 0 else min 1 (sibs.filterMap busyOf).sum)

/-- A row of the CSV, by `_fnum` of its cells; `none` where it is skipped. -/
def loadRow (cell : Text → Option K) : Option (Sample K) :=
  match cell "pkg_w".toList with
  | none => none
  | some pkg =>
    let mhzOf := fun cpu => cell (column cpu "_mhz".toList)
    let busyOf := fun cpu => cell (column cpu "_busy".toList)
    if pkg ≤ 0 then none
    else if (List.range nLogicalCpus).all fun cpu => (mhzOf cpu).isNone then none
    else
      ((List.range nPhysCores).mapM (foldSiblings mhzOf busyOf)).map fun phys =>
        { tS := cell "t_s".toList
          pkgW := pkg
          coreW := cell "core_w".toList
          uncoreW := cell "uncore_w".toList
          dramW := cell "dram_w".toList
          psysW := cell "psys_w".toList
          tempC := (cell "pkg_c".toList).getD tDefaultC
          phys := phys }

/-- `load_samples`: the samples, and the number of rows skipped. -/
def loadSamples (rows : List (Text → Option K)) : List (Sample K) × Nat :=
  (rows.filterMap loadRow, rows.countP fun row => (loadRow row).isNone)

/-! ## What the calibration fits -/

/-- A row of the regression: the regressors, and what is subtracted from the target. -/
structure Regressors (K : Type) where
  x1 : K
  x2 : K
  x3 : K
  r : K

def regressors (m : Libm K) (phys : List (Core K)) (tempC : K) : Regressors K :=
  let active := phys.filter isActive
  let fMax := maxFreq fMinHz active
  let v := vOfF fMax
  { x1 := (active.map fun core => core.2 * v ^ 2 * (core.1 / ghz)).sum
    x2 := (phys.map fun core =>
      leakShape m v * leakTempFactor m tempC * if isActive core then 1 else c6LeakResidual).sum
    x3 := 1
    r :=
      if active = [] then 0
      else ringPower fMax +
        kUncoreTrafficWPerGhz * (active.map fun core => core.2 * core.1 / ghz).sum }

end Rail

end FakeBigLittle
