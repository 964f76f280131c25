import FakeBigLittle.Argmin
import FakeBigLittle.Rail.Summary

/-!
# The crossover

`experiment_c`: a fixed amount of work at every frequency of a sweep. The fixed floor of the
package is paid for as long as the work takes, so it moves the best frequency up.
-/

namespace FakeBigLittle

namespace Rail

variable {K : Type} [Field K] [LinearOrder K]

/-! ## The sweep -/

def freqSweepStepHz : K := 25000000

/-- The loop from `f` on. -/
def sweepFrom (ceiling : K) : Nat → K → List K
  | 0, _ => []
  | fuel + 1, f =>
    if f ≤ ceiling + 1 then f :: sweepFrom ceiling fuel (f + freqSweepStepHz) else []

/-- All frequencies. From 400 MHz to 4 GHz the loop takes 145 rounds. -/
def sweep (nCores : Nat) : List K := sweepFrom (turboLimitHz nCores) 200 fMinHz

structure Point (K : Type) where
  fGhz : K
  vV : K
  tS : K
  pW : K
  pDynW : K
  pLeakW : K
  pUncoreW : K
  eJ : K
  eJNoFixedFloor : K
  eJCoreOnly : K

def statesAt (nCores : Nat) (f : K) : List (Core K) :=
  List.replicate nCores (f, 1) ++ List.replicate (nPhysCores - nCores) (fMinHz, 0)

-- `t` of the loop
def runtimeS (nCores : Nat) (workGcycles f : K) : K := workGcycles * ghz / (nCores * f)

def pointAt (m : Libm K) (params : Params K) (nCores : Nat) (workGcycles tempC f : K) : Point K :=
  let p := packagePower m params (statesAt nCores f) true tempC
  let t := runtimeS nCores workGcycles f
  { fGhz := f / ghz
    vV := p.vRail
    tS := t
    pW := p.total
    pDynW := p.dyn
    pLeakW := p.leak
    pUncoreW := p.uncore
    eJ := p.total * t
    eJNoFixedFloor := (p.total - p.uncoreSa) * t
    eJCoreOnly := (p.dyn + p.leak) * t }

def curve (m : Libm K) (params : Params K) (nCores : Nat) (workGcycles tempC : K) :
    List (Point K) :=
  (sweep nCores).map (pointAt m params nCores workGcycles tempC)

structure Crossover (K : Type) where
  nCores : Nat
  workGcycles : K
  crossoverFGhz : K
  crossoverVV : K
  crossoverEnergyJ : K
  crossoverRuntimeS : K
  fOptGhzWithoutFixedFloor : K
  fOptGhzCoreOnly : K
  energyAtFMinJ : K
  energyPenaltyOfRunningAtFMinPct : K
  uncoreShareAtFMinPct : K
  uncoreShareAtCrossoverPct : K

/-- `none` is `ValueError` or `IndexError`. -/
def experimentC (m : Libm K) (params : Params K) (nCores : Nat) (workGcycles tempC : K) :
    Option (List (Point K) × Crossover K) := do
  let points := curve m params nCores workGcycles tempC
  let best ← points.argmin fun r => r.eJ
  let bestNofloor ← points.argmin fun r => r.eJNoFixedFloor
  let bestCoreonly ← points.argmin fun r => r.eJCoreOnly
  let eAtMin ← (points.filter fun r => |r.fGhz - fMinHz / ghz| < 0.000001).head?
  some (points,
    { nCores := nCores
      workGcycles := workGcycles
      crossoverFGhz := best.fGhz
      crossoverVV := best.vV
      crossoverEnergyJ := best.eJ
      crossoverRuntimeS := best.tS
      fOptGhzWithoutFixedFloor := bestNofloor.fGhz
      fOptGhzCoreOnly := bestCoreonly.fGhz
      energyAtFMinJ := eAtMin.eJ
      energyPenaltyOfRunningAtFMinPct := (100 : Nat) * (eAtMin.eJ - best.eJ) / best.eJ
      uncoreShareAtFMinPct := (100 : Nat) * eAtMin.pUncoreW / eAtMin.pW
      uncoreShareAtCrossoverPct := (100 : Nat) * best.pUncoreW / best.pW })

variable [IsStrictOrderedRing K]

section Sweep

variable {ceiling f g : K} {fuel : Nat}

theorem freqSweepStepHz_pos : (0 : K) < freqSweepStepHz := by
  unfold freqSweepStepHz
  norm_num

theorem le_of_mem_sweepFrom (h : g ∈ sweepFrom ceiling fuel f) : f ≤ g := by
  induction fuel generalizing f with
  | zero => exact absurd h List.not_mem_nil
  | succ fuel ih =>
    unfold sweepFrom at h
    split_ifs at h
    · rcases List.mem_cons.mp h with rfl | h
      · exact le_refl _
      · exact (le_add_of_nonneg_right freqSweepStepHz_pos.le).trans (ih h)
    · exact absurd h List.not_mem_nil

theorem sweepFrom_sorted (ceiling : K) (fuel : Nat) (f : K) :
    (sweepFrom ceiling fuel f).Pairwise (· < ·) := by
  induction fuel generalizing f with
  | zero => exact .nil
  | succ fuel ih =>
    unfold sweepFrom
    split_ifs
    · refine List.pairwise_cons.mpr ⟨fun g hg => ?_, ih _⟩
      exact (lt_add_of_pos_right f freqSweepStepHz_pos).trans_le (le_of_mem_sweepFrom hg)
    · exact .nil

theorem mem_sweepFrom {i : Nat} (hi : i < fuel) (hle : f + i * freqSweepStepHz ≤ ceiling + 1) :
    f + i * freqSweepStepHz ∈ sweepFrom ceiling fuel f := by
  induction fuel generalizing f i with
  | zero => exact absurd hi (Nat.not_lt_zero _)
  | succ fuel ih =>
    have hstep : (0 : K) ≤ i * freqSweepStepHz :=
      mul_nonneg (Nat.cast_nonneg _) freqSweepStepHz_pos.le
    unfold sweepFrom
    rw [if_pos ((le_add_of_nonneg_right hstep).trans hle)]
    cases i with
    | zero => simp
    | succ i =>
      have hnext : f + (i + 1 : Nat) * freqSweepStepHz =
          f + freqSweepStepHz + i * freqSweepStepHz := by
        push_cast
        ring
      rw [hnext] at hle ⊢
      exact List.mem_cons_of_mem _ (ih (Nat.lt_of_succ_lt_succ hi) hle)

/-- Every step up to the ceiling is in the sweep, which the bound never cuts short. -/
theorem mem_sweep {nCores : Nat} (hn : 0 < nCores) (i : Nat)
    (hle : fMinHz + i * freqSweepStepHz ≤ (turboLimitHz nCores : K) + 1) :
    (fMinHz + i * freqSweepStepHz : K) ∈ sweep nCores := by
  refine mem_sweepFrom ?_ hle
  by_contra hlarge
  have hmax := (turboLimitHz_mem (K := K) hn).2
  have hcast : (200 : K) ≤ i := by exact_mod_cast not_lt.mp hlarge
  unfold fMinHz freqSweepStepHz at hle
  linarith

theorem sweep_pos {nCores : Nat} (h : f ∈ (sweep nCores : List K)) : 0 < f :=
  fMinHz_pos.trans_le (le_of_mem_sweepFrom h)

/-- The sweep begins at the lowest frequency. -/
theorem sweep_cons {nCores : Nat} (hn : 0 < nCores) :
    ∃ fs, (sweep nCores : List K) = fMinHz :: fs := by
  have hle : (fMinHz : K) ≤ turboLimitHz nCores + 1 :=
    (turboLimitHz_mem hn).1.trans (le_add_of_nonneg_right zero_le_one)
  exact ⟨_, if_pos hle⟩

end Sweep

/-! ## The floor -/

section Floor

variable {m : Libm K} {params : Params K} {nCores : Nat} {work tempC f g : K}

/-- The same constants with another floor. -/
def Params.withFloor (params : Params K) (floor : K) : Params K := { params with pSaFloor := floor }

theorem statesAt_active (hn : 0 < nCores) (f : K) :
    (statesAt nCores f).filter isActive ≠ [] := by
  intro hnone
  have hmem : (f, (1 : K)) ∈ statesAt nCores f :=
    List.mem_append_left _ (List.mem_replicate.mpr ⟨hn.ne', rfl⟩)
  have hactive : isActive (f, (1 : K)) = true := by
    unfold isActive activityC6Eps
    norm_num
  exact List.filter_eq_nil_iff.mp hnone _ hmem hactive

theorem statesAt_nonneg (hf : 0 ≤ f) : ∀ core ∈ statesAt nCores f, 0 ≤ core.1 := by
  intro core hcore
  rcases List.mem_append.mp hcore with hcore | hcore
  · rw [List.eq_of_mem_replicate hcore]
    exact hf
  · rw [List.eq_of_mem_replicate hcore]
    exact fMinHz_pos.le

theorem runtimeS_pos (hn : 0 < nCores) (hwork : 0 < work) (hf : 0 < f) :
    0 < runtimeS nCores work f :=
  div_pos (mul_pos hwork ghz_pos) (mul_pos (Nat.cast_pos.mpr hn) hf)

theorem runtimeS_antitone (hn : 0 < nCores) (hwork : 0 < work) (hf : 0 < f) (hle : f ≤ g) :
    runtimeS nCores work g ≤ runtimeS nCores work f := by
  have hcount : (0 : K) < nCores := Nat.cast_pos.mpr hn
  exact div_le_div_of_nonneg_left (mul_pos hwork ghz_pos).le (mul_pos hcount hf)
    (mul_le_mul_of_nonneg_left hle hcount.le)

/-- Another floor costs the difference for as long as the work takes. -/
theorem eJ_withFloor (hn : 0 < nCores) (floor f : K) :
    (pointAt m (params.withFloor floor) nCores work tempC f).eJ =
      (pointAt m params nCores work tempC f).eJ +
        (floor - params.pSaFloor) * runtimeS nCores work f := by
  unfold pointAt
  simp only
  rw [packagePower_total (statesAt_active hn f), packagePower_total (statesAt_active hn f)]
  show (dynOf params _ _ _ + leakOf m params _ _ _ _ + (floor + _ + _)) * _ = _
  ring

theorem eJNoFixedFloor_eq (hn : 0 < nCores) (f : K) :
    (pointAt m params nCores work tempC f).eJNoFixedFloor =
      (pointAt m params nCores work tempC f).eJ - params.pSaFloor * runtimeS nCores work f := by
  have hsa : (packagePower m params (statesAt nCores f) true tempC).uncoreSa =
      params.pSaFloor := by
    unfold packagePower
    rw [if_neg (statesAt_active hn f)]
  unfold pointAt
  simp only
  rw [hsa]
  ring

theorem eJ_pos (hm : m.Rises) (hc : 0 ≤ params.cEff) (hk : 0 ≤ params.kLeak)
    (hsa : 0 ≤ params.pSaFloor) (hn : 0 < nCores) (hwork : 0 < work) (hf : 0 < f) :
    0 < (pointAt m params nCores work tempC f).eJ :=
  mul_pos (packagePower_pos hm hc hk hsa (statesAt_nonneg hf.le) _ _) (runtimeS_pos hn hwork hf)

end Floor

/-! ## The crossover -/

/-- What `experiment_c` says of a sweep. -/
structure Crossover.Sound (params : Params K) (points : List (Point K)) (s : Crossover K) :
    Prop where
  /-- the crossover is a point of the curve -/
  crossover : ∃ p ∈ points, p.fGhz = s.crossoverFGhz ∧ p.vV = s.crossoverVV ∧
    p.eJ = s.crossoverEnergyJ ∧ p.tS = s.crossoverRuntimeS
  /-- no frequency costs less, and a lower one costs more -/
  best : ∀ p ∈ points, s.crossoverEnergyJ ≤ p.eJ ∧
    (p.fGhz < s.crossoverFGhz → s.crossoverEnergyJ < p.eJ)
  bestNoFloor : ∃ p ∈ points, p.fGhz = s.fOptGhzWithoutFixedFloor ∧
    ∀ q ∈ points, p.eJNoFixedFloor ≤ q.eJNoFixedFloor
  bestCoreOnly : ∃ p ∈ points, p.fGhz = s.fOptGhzCoreOnly ∧
    ∀ q ∈ points, p.eJCoreOnly ≤ q.eJCoreOnly
  atFMin : ∃ p ∈ points, p.fGhz = fMinHz / ghz ∧ p.eJ = s.energyAtFMinJ
  penalty : 0 ≤ s.energyPenaltyOfRunningAtFMinPct ∧
    s.energyAtFMinJ = s.crossoverEnergyJ * (1 + s.energyPenaltyOfRunningAtFMinPct / 100)
  /-- the floor is there: the best frequency without it is no higher -/
  floor : s.fOptGhzWithoutFixedFloor ≤ s.crossoverFGhz
  noFloor : params.pSaFloor = 0 → s.fOptGhzWithoutFixedFloor = s.crossoverFGhz

section Experiment

variable {m : Libm K} {params : Params K} {nCores : Nat} {work tempC : K}

/-- The parts of the experiment, by the points that they are read from. -/
structure ReadFrom (m : Libm K) (params : Params K) (nCores : Nat) (work tempC : K)
    (s : Crossover K) (best nofloor core : Point K) : Prop where
  isBest : (curve m params nCores work tempC).argmin (fun r => r.eJ) = some best
  isNofloor : (curve m params nCores work tempC).argmin (fun r => r.eJNoFixedFloor) = some nofloor
  isCore : (curve m params nCores work tempC).argmin (fun r => r.eJCoreOnly) = some core
  crossoverFGhz : s.crossoverFGhz = best.fGhz
  crossoverVV : s.crossoverVV = best.vV
  crossoverEnergyJ : s.crossoverEnergyJ = best.eJ
  crossoverRuntimeS : s.crossoverRuntimeS = best.tS
  fOptGhzWithoutFixedFloor : s.fOptGhzWithoutFixedFloor = nofloor.fGhz
  fOptGhzCoreOnly : s.fOptGhzCoreOnly = core.fGhz
  energyAtFMinJ : s.energyAtFMinJ = (pointAt m params nCores work tempC fMinHz).eJ
  energyPenalty : s.energyPenaltyOfRunningAtFMinPct =
    (100 : Nat) * (s.energyAtFMinJ - s.crossoverEnergyJ) / s.crossoverEnergyJ

theorem exists_experimentC (m : Libm K) (params : Params K) (hn : 0 < nCores) (work tempC : K) :
    ∃ s best nofloor core, experimentC m params nCores work tempC =
        some (curve m params nCores work tempC, s) ∧
      ReadFrom m params nCores work tempC s best nofloor core := by
  obtain ⟨fs, hfs⟩ := sweep_cons (K := K) hn
  have hcons : curve m params nCores work tempC = pointAt m params nCores work tempC fMinHz ::
      fs.map (pointAt m params nCores work tempC) := by
    unfold curve
    rw [hfs, List.map_cons]
  have hmin : ∀ key : Point K → K, ∃ p, (curve m params nCores work tempC).argmin key = some p :=
    fun key => Option.ne_none_iff_exists'.mp
      (mt List.argmin_eq_none.mp (by rw [hcons]; exact List.cons_ne_nil _ _))
  obtain ⟨best, hbest⟩ := hmin fun r => r.eJ
  obtain ⟨nofloor, hnofloor⟩ := hmin fun r => r.eJNoFixedFloor
  obtain ⟨core, hcore⟩ := hmin fun r => r.eJCoreOnly
  have hat : ((curve m params nCores work tempC).filter
      fun r => |r.fGhz - fMinHz / ghz| < 0.000001).head? =
        some (pointAt m params nCores work tempC fMinHz) := by
    have hzero : |(pointAt m params nCores work tempC fMinHz).fGhz - fMinHz / ghz| <
        (0.000001 : K) := by
      show |fMinHz / ghz - fMinHz / ghz| < (0.000001 : K)
      rw [sub_self, abs_zero]
      norm_num
    rw [hcons, List.filter_cons_of_pos (by simpa using hzero), List.head?_cons]
  unfold experimentC
  simp only [hbest, hnofloor, hcore, hat]
  exact ⟨_, best, nofloor, core, rfl, hbest, hnofloor, hcore, rfl, rfl, rfl, rfl, rfl, rfl, rfl,
    rfl⟩

/-- Where the difference of two costs falls with the frequency, the second is lowest no
earlier. -/
theorem argmin_fGhz_le {params' : Params K} {cost cost' : Point K → K} {p p' : Point K}
    (hfalls : ∀ f ∈ (sweep nCores : List K), ∀ g ∈ sweep nCores, f < g →
      cost' (pointAt m params' nCores work tempC g) - cost (pointAt m params nCores work tempC g) ≤
      cost' (pointAt m params' nCores work tempC f) - cost (pointAt m params nCores work tempC f))
    (h : (curve m params nCores work tempC).argmin cost = some p)
    (h' : (curve m params' nCores work tempC).argmin cost' = some p') : p.fGhz ≤ p'.fGhz := by
  obtain ⟨f, -, g, -, rfl, rfl, hle⟩ :=
    Argmin.argmin_le_argmin (sweepFrom_sorted _ _ _) hfalls h h'
  exact div_le_div_of_nonneg_right hle ghz_pos.le

/-- A floor is paid for as long as the work takes, and less long at a higher frequency. -/
theorem floor_falls (hn : 0 < nCores) (hwork : 0 < work) {floor f g : K} (hfloor : 0 ≤ floor)
    (hf : f ∈ (sweep nCores : List K)) (hlt : f < g) :
    floor * runtimeS nCores work g ≤ floor * runtimeS nCores work f :=
  mul_le_mul_of_nonneg_left (runtimeS_antitone hn hwork (sweep_pos hf) hlt.le) hfloor

theorem eJNoFixedFloor_withFloor (hn : 0 < nCores) (floor f : K) :
    (pointAt m (params.withFloor floor) nCores work tempC f).eJNoFixedFloor =
      (pointAt m params nCores work tempC f).eJNoFixedFloor := by
  rw [eJNoFixedFloor_eq hn, eJNoFixedFloor_eq hn, eJ_withFloor hn]
  show _ - floor * _ = _
  ring

/-- What `experiment_c` reads off its curve is so. -/
theorem sound_experimentC {s : Crossover K} {best nofloor core : Point K}
    (h : ReadFrom m params nCores work tempC s best nofloor core) (hm : m.Rises)
    (hc : 0 ≤ params.cEff) (hk : 0 ≤ params.kLeak) (hsa : 0 ≤ params.pSaFloor)
    (hn : 0 < nCores) (hwork : 0 < work) :
    s.Sound params (curve m params nCores work tempC) := by
  obtain ⟨fs, hfs⟩ := sweep_cons (K := K) hn
  have hmin : pointAt m params nCores work tempC fMinHz ∈ curve m params nCores work tempC :=
    List.mem_map_of_mem (hfs ▸ List.mem_cons_self)
  obtain ⟨f, hf, hfbest, hlow, hbefore⟩ := Argmin.first_of_argmin (sweepFrom_sorted _ _ _) h.isBest
  have hpos : 0 < s.crossoverEnergyJ := by
    rw [h.crossoverEnergyJ, hfbest]
    exact eJ_pos hm hc hk hsa hn hwork (sweep_pos hf)
  have hpenalty : s.crossoverEnergyJ ≤ s.energyAtFMinJ := by
    rw [h.crossoverEnergyJ, h.energyAtFMinJ]
    exact List.le_of_mem_argmin hmin h.isBest
  constructor
  · exact ⟨best, List.argmin_mem h.isBest, h.crossoverFGhz.symm, h.crossoverVV.symm,
      h.crossoverEnergyJ.symm, h.crossoverRuntimeS.symm⟩
  · intro p hp
    rw [h.crossoverEnergyJ, h.crossoverFGhz]
    refine ⟨List.le_of_mem_argmin hp h.isBest, fun hlt => ?_⟩
    obtain ⟨g, hg, rfl⟩ := List.mem_map.mp hp
    rw [hfbest] at hlt ⊢
    exact hbefore g hg ((div_lt_div_iff_of_pos_right ghz_pos).mp hlt)
  · exact ⟨nofloor, List.argmin_mem h.isNofloor, h.fOptGhzWithoutFixedFloor.symm,
      fun q hq => List.le_of_mem_argmin hq h.isNofloor⟩
  · exact ⟨core, List.argmin_mem h.isCore, h.fOptGhzCoreOnly.symm,
      fun q hq => List.le_of_mem_argmin hq h.isCore⟩
  · exact ⟨_, hmin, rfl, h.energyAtFMinJ.symm⟩
  · rw [h.energyPenalty]
    have hdiff : 0 ≤ s.energyAtFMinJ - s.crossoverEnergyJ := sub_nonneg.mpr hpenalty
    have hne := hpos.ne'
    constructor
    · positivity
    · field_simp
      ring
  · rw [h.fOptGhzWithoutFixedFloor, h.crossoverFGhz]
    refine argmin_fGhz_le (fun f hfmem g _ hlt => ?_) h.isNofloor h.isBest
    have hfalls := floor_falls hn hwork hsa hfmem hlt
    rw [eJNoFixedFloor_eq hn, eJNoFixedFloor_eq hn]
    linarith
  · intro hzero
    rw [h.fOptGhzWithoutFixedFloor, h.crossoverFGhz]
    refine le_antisymm (argmin_fGhz_le (fun f _ g _ _ => ?_) h.isNofloor h.isBest)
      (argmin_fGhz_le (fun f _ g _ _ => ?_) h.isBest h.isNofloor) <;>
    · rw [eJNoFixedFloor_eq hn, eJNoFixedFloor_eq hn, hzero]
      linarith

/-- **The fixed floor races to idle.** The sweep covers the range up to the turbo limit, its
crossover is the first of its points that cost least, and no floor makes it lower: it is no lower
than the best frequency without a floor, and a higher floor never lowers it, nor moves the best
frequency without. -/
theorem floor_raises_crossover (m : Libm K) (hm : m.Rises) (params : Params K)
    (hc : 0 ≤ params.cEff) (hk : 0 ≤ params.kLeak) (hsa : 0 ≤ params.pSaFloor) (nCores : Nat)
    (hn : 0 < nCores) (work : K) (hwork : 0 < work) (tempC floor : K)
    (hfloor : params.pSaFloor ≤ floor) :
    ∃ points s points' s', experimentC m params nCores work tempC = some (points, s) ∧
      experimentC m (params.withFloor floor) nCores work tempC = some (points', s') ∧
      (∀ i : Nat, fMinHz + i * freqSweepStepHz ≤ (turboLimitHz nCores : K) →
        ∃ p ∈ points, p.fGhz = (fMinHz + i * freqSweepStepHz) / ghz) ∧
      s.Sound params points ∧ s'.Sound (params.withFloor floor) points' ∧
      s.crossoverFGhz ≤ s'.crossoverFGhz ∧
      s'.fOptGhzWithoutFixedFloor = s.fOptGhzWithoutFixedFloor := by
  obtain ⟨s, best, nofloor, core, hs, h⟩ := exists_experimentC m params hn work tempC
  obtain ⟨s', best', nofloor', core', hs', h'⟩ :=
    exists_experimentC m (params.withFloor floor) hn work tempC
  have hsa' : 0 ≤ (params.withFloor floor).pSaFloor := hsa.trans hfloor
  refine ⟨_, s, _, s', hs, hs', fun i hi => ?_, sound_experimentC h hm hc hk hsa hn hwork,
    sound_experimentC h' hm hc hk hsa' hn hwork, ?_, ?_⟩
  · refine ⟨_, List.mem_map_of_mem (mem_sweep hn i ?_), rfl⟩
    exact hi.trans (le_add_of_nonneg_right zero_le_one)
  · rw [h.crossoverFGhz, h'.crossoverFGhz]
    refine argmin_fGhz_le (fun f hfmem g _ hlt => ?_) h.isBest h'.isBest
    have hfalls := floor_falls hn hwork (sub_nonneg.mpr hfloor) hfmem hlt
    rw [eJ_withFloor hn, eJ_withFloor hn]
    linarith
  · rw [h.fOptGhzWithoutFixedFloor, h'.fOptGhzWithoutFixedFloor]
    refine le_antisymm (argmin_fGhz_le (fun f _ g _ _ => ?_) h'.isNofloor h.isNofloor)
      (argmin_fGhz_le (fun f _ g _ _ => ?_) h.isNofloor h'.isNofloor) <;>
    · rw [eJNoFixedFloor_withFloor hn, eJNoFixedFloor_withFloor hn]
      linarith

end Experiment

/-- The compile of the model on all four cores, with the default floor and with 2 W. -/
theorem floor_raises_crossover_four :
    ∃ points s points' s', experimentC realLibm priorParams 4 120 60 = some (points, s) ∧
      experimentC realLibm (priorParams.withFloor 2) 4 120 60 = some (points', s') ∧
      s.crossoverFGhz ≤ s'.crossoverFGhz := by
  obtain ⟨points, s, points', s', hs, hs', -, -, -, hle, -⟩ := floor_raises_crossover realLibm
    realLibm_rises priorParams (by norm_num [priorParams]) (by norm_num [priorParams])
    (by norm_num [priorParams]) 4 (by norm_num) 120 (by norm_num) 60 2 (by norm_num [priorParams])
  exact ⟨points, s, points', s', hs, hs', hle⟩

end Rail

end FakeBigLittle
