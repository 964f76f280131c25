import FakeBigLittle.Bisect
import FakeBigLittle.Rail.Spec

/-!
# The partition sweep

`experiment_b`: a fixed compile and a few background tasks on every partition of the cores, on
a shared rail and on split ones. With PL1 the compile gets the highest frequency that fits.
-/

namespace FakeBigLittle

namespace Rail

variable {K : Type} [Field K] [LinearOrder K]

/-! ## The power cap -/

def fLittleHz : K := (800000000 : Nat)
def pl1W : K := 15

def turboBinsHz : Nat → Nat
  | 1 => 4000000000
  | 2 => 4000000000
  | 3 => 3900000000
  | _ => 3700000000

def turboLimitHz (nActiveCores : Nat) : K :=
  if nActiveCores = 0 then fMinHz else turboBinsHz (min nActiveCores nPhysCores)

-- `p_at` of `freq_under_power_cap`
def pAt (m : Libm K) (params : Params K) (nActive : Nat) (activity : K) (sharedRail : Bool)
    (tempC : K) (others : List (Core K)) (f : K) : K :=
  (packagePower m params (List.replicate nActive (f, activity) ++ others) sharedRail tempC).total

def freqUnderPowerCap (m : Libm K) (params : Params K) (nActive : Nat)
    (activity fCeilingHz capW : K) (sharedRail : Bool) (tempC : K) (others : List (Core K)) : K :=
  let power := pAt m params nActive activity sharedRail tempC others
  if power fMinHz ≥ capW then fMinHz
  else if power fCeilingHz ≤ capW then fCeilingHz
  else (Bisect.search (fun f => decide (power f > capW)) 100000 60 (fMinHz, fCeilingHz)).1

/-! ## A row of the sweep -/

/-- The workload: the constants that `experiment_b` reads. -/
structure Workload (K : Type) where
  wCompileGcycles : K
  wLightGcyclesPerTask : K
  nLightTasks : Nat
  horizonS : K

def defaultWorkload : Workload K := ⟨120, 15, 3, 30⟩

/-- What a row asks for: a partition, a rail, and whether PL1 applies. -/
structure Setup (K : Type) where
  nBig : Nat
  sharedRail : Bool
  tempC : K
  applyPl1 : Bool

def Setup.nLittle (s : Setup K) : Nat := nPhysCores - s.nBig

-- With no big cores the compile runs on the little ones.
def Setup.nWork (s : Setup K) : Nat := if s.nBig = 0 then s.nLittle else s.nBig

-- `f_work` before the cap
def Setup.fCeilingHz (s : Setup K) : K :=
  if s.nBig = 0 then fLittleHz else turboLimitHz (max s.nBig 1)

def Setup.fBgHz (s : Setup K) : K := if s.nLittle > 0 then fLittleHz else s.fCeilingHz

def Setup.nBgCores (s : Setup K) (w : Workload K) : Nat :=
  if s.nLittle > 0 then min s.nLittle w.nLightTasks else min s.nBig w.nLightTasks

def Setup.bgCyclesPerCore (s : Setup K) (w : Workload K) : K :=
  w.nLightTasks * w.wLightGcyclesPerTask / (max (s.nBgCores w) 1 : Nat)

-- The activity that finishes the background within the horizon.
def Setup.aBg (s : Setup K) (w : Workload K) : K :=
  min 1 (s.bgCyclesPerCore w * ghz / (s.fBgHz * w.horizonS))

def Setup.bgStatesFixed (s : Setup K) (w : Workload K) : List (Core K) :=
  (List.range (nPhysCores - s.nWork)).map fun i =>
    if i < s.nBgCores w then (s.fBgHz, s.aBg w) else (fMinHz, 0)

def Setup.fWorkHz (s : Setup K) (m : Libm K) (params : Params K) (w : Workload K) : K :=
  if s.applyPl1 && decide (s.nBig > 0) then
    freqUnderPowerCap m params s.nWork 1 s.fCeilingHz pl1W s.sharedRail s.tempC
      (s.bgStatesFixed w)
  else s.fCeilingHz

-- `n_work` is never 0.
def Setup.tCompileS (s : Setup K) (w : Workload K) (fWork : K) : K :=
  w.wCompileGcycles * ghz / (s.nWork * fWork)

/-- The cores while the compile runs, and the background next to it. -/
def Setup.phase1 (s : Setup K) (w : Workload K) (fWork : K) : List (Core K) :=
  (List.range nPhysCores).map fun i =>
    if i < s.nWork then (fWork, 1)
    else if i < s.nWork + s.nBgCores w then (s.fBgHz, s.aBg w)
    else (fMinHz, 0)

/-- The cores after it. A background without little cores is kept alive on the work cores. -/
def Setup.phase2 (s : Setup K) (w : Workload K) : List (Core K) :=
  if s.nBgCores w > 0 ∧ s.nLittle = 0 then
    List.replicate (s.nBgCores w) (s.fBgHz, s.aBg w) ++
      List.replicate (nPhysCores - s.nBgCores w) (fMinHz, 0)
  else
    (List.range nPhysCores).map fun i =>
      if i < s.nWork then (fMinHz, 0)
      else if i < s.nWork + s.nBgCores w then (s.fBgHz, s.aBg w)
      else (fMinHz, 0)

structure Row (K : Type) where
  nBig : Nat
  nLittle : Nat
  sharedRail : Bool
  fWorkGhz : K
  fBgGhz : K
  bgActivity : K
  tCompileS : K
  tWindowS : K
  finishedInHorizon : Bool
  pPhase1W : K
  pPhase2W : K
  vRailPhase1V : K
  energyJ : K

def experimentRow (m : Libm K) (params : Params K) (w : Workload K) (s : Setup K) : Row K :=
  let fWork := s.fWorkHz m params w
  let tCompile := s.tCompileS w fWork
  let tEnd := max tCompile w.horizonS
  let p1 := packagePower m params (s.phase1 w fWork) s.sharedRail s.tempC
  let t2 := max 0 (tEnd - tCompile)
  let p2 := packagePower m params (s.phase2 w) s.sharedRail s.tempC
  { nBig := s.nBig
    nLittle := s.nLittle
    sharedRail := s.sharedRail
    fWorkGhz := fWork / ghz
    fBgGhz := s.fBgHz / ghz
    bgActivity := s.aBg w
    tCompileS := tCompile
    tWindowS := tEnd
    finishedInHorizon := tCompile ≤ w.horizonS
    pPhase1W := p1.total
    pPhase2W := p2.total
    vRailPhase1V := p1.vRail
    energyJ := p1.total * tCompile + p2.total * t2 }

/-- The setups in the order of the two loops. -/
def setups (tempC : K) (applyPl1 : Bool) : List (Setup K) :=
  (List.range (nPhysCores + 1)).flatMap fun nBig =>
    [true, false].map fun sharedRail => ⟨nBig, sharedRail, tempC, applyPl1⟩

def experimentB (m : Libm K) (params : Params K) (w : Workload K) (tempC : K) (applyPl1 : Bool) :
    List (Row K) :=
  (setups tempC applyPl1).map (experimentRow m params w)

/-! ## The rail tax -/

structure RailTax (K : Type) where
  nBig : Nat
  energyJShared : K
  energyJSplit : K
  railTaxJ : K
  railTaxPct : K
  feasible : Bool

def railTax (nBig : Nat) (rs rp : Row K) : RailTax K where
  nBig := nBig
  energyJShared := rs.energyJ
  energyJSplit := rp.energyJ
  railTaxJ := rs.energyJ - rp.energyJ
  railTaxPct := 100 * (rs.energyJ - rp.energyJ) / rp.energyJ
  feasible := rs.finishedInHorizon && rp.finishedInHorizon

/-- The rows that the entry for `nBig` compares, the shared one first; `none` where one is
missing. -/
def taxedRows (results : List (Row K)) (nBig : Nat) : Option (Row K × Row K) :=
  match (results.filter fun r => r.sharedRail).find? fun r => r.nBig = nBig,
    (results.filter fun r => !r.sharedRail).find? fun r => r.nBig = nBig with
  | some rs, some rp => some (rs, rp)
  | _, _ => none

def railTaxByNBig (results : List (Row K)) : Option (List (RailTax K)) :=
  (List.range (nPhysCores + 1)).mapM fun nBig =>
    (taxedRows results nBig).map fun rows => railTax nBig rows.1 rows.2

end Rail

end FakeBigLittle
