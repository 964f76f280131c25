import FakeBigLittle.Rail.Power
import Mathlib.Tactic.Ring

/-!
# The regression against the model it installs

`calibrate` is linear in the three parameters of `package_power`, as long as the package is in
C0: an idle one has `P_PKG_C6_W` there where the regression has `p_sa_floor`.
-/

namespace FakeBigLittle

namespace Rail

variable {K : Type} [Field K] [LinearOrder K]

def Regressors.predict (x : Regressors K) (params : Params K) : K :=
  params.cEff * x.x1 + params.kLeak * x.x2 + params.pSaFloor * x.x3 + x.r

section Predict

variable (m : Libm K) (params : Params K) (tempC : K)

/-- The dynamic power on a shared rail is `C_eff` times `X1`. -/
theorem dynOf_shared (v : K) (cores : List (Core K)) :
    dynOf params true v cores = params.cEff *
      ((cores.filter isActive).map fun core => core.2 * v ^ 2 * (core.1 / ghz)).sum := by
  unfold dynOf vCore
  simp only [if_true]
  induction cores with
  | nil => simp
  | cons core cores ih =>
    rw [List.map_cons, List.sum_cons, ih]
    cases hactive : isActive core with
    | true =>
      rw [List.filter_cons_of_pos hactive, List.map_cons, List.sum_cons, if_pos rfl]
      ring
    | false =>
      rw [List.filter_cons_of_neg (by simp [hactive]), if_neg Bool.false_ne_true, zero_add]

omit [LinearOrder K] in
theorem coreLeakageW_eq (v : K) (active : Bool) :
    coreLeakageW m params v active tempC = params.kLeak *
      (leakShape m v * leakTempFactor m tempC * if active then 1 else c6LeakResidual) := by
  unfold coreLeakageW
  cases active with
  | true =>
    simp only [if_true]
    ring
  | false =>
    simp only [Bool.false_eq_true, if_false]
    ring

/-- Its leakage is `k_leak` times `X2`. -/
theorem leakOf_shared (v : K) (cores : List (Core K)) :
    leakOf m params true v tempC cores = params.kLeak * (cores.map fun core =>
      leakShape m v * leakTempFactor m tempC *
        if isActive core then 1 else c6LeakResidual).sum := by
  unfold leakOf vCore
  simp only [if_true, coreLeakageW_eq]
  exact List.sum_map_mul_left cores _ _

theorem predict_active {cores : List (Core K)} (h : cores.filter isActive ≠ []) :
    (regressors m cores tempC).predict params =
      (packagePower m params cores true tempC).total := by
  unfold packagePower Regressors.predict regressors
  simp only [if_neg h, dynOf_shared, leakOf_shared, aggActiveGhz]
  ring

/-- In C6 the floor is not a parameter. -/
theorem predict_idle {cores : List (Core K)} (h : cores.filter isActive = []) :
    (regressors m cores tempC).predict params =
      (packagePower m params cores true tempC).total - pPkgC6W + params.pSaFloor := by
  have hidle : ∀ core ∈ cores, isActive core = false := by
    intro core hcore
    exact Bool.eq_false_iff.mpr (List.filter_eq_nil_iff.mp h core hcore)
  have hleak : (cores.map fun _ => coreLeakageW m params (vOfF fMinHz) false tempC).sum =
      leakOf m params true (vOfF fMinHz) tempC cores := by
    unfold leakOf vCore
    congr 1
    apply List.map_congr_left
    intro core hcore
    rw [if_pos rfl, hidle core hcore]
  unfold packagePower Regressors.predict regressors
  simp only [h, if_true, maxFreq, List.map_nil, List.sum_nil]
  rw [hleak, leakOf_shared]
  ring

end Predict

/-- **The prediction is the power of the model unless the package is idle.** -/
theorem predict_eq_total_iff (m : Libm K) (params : Params K) (cores : List (Core K)) (tempC : K) :
    (regressors m cores tempC).predict params =
        (packagePower m params cores true tempC).total ↔
      (∃ core ∈ cores, isActive core = true) ∨ params.pSaFloor = pPkgC6W := by
  by_cases h : cores.filter isActive = []
  · have hidle : ¬∃ core ∈ cores, isActive core = true := by
      rintro ⟨core, hcore, hactive⟩
      exact List.filter_eq_nil_iff.mp h core hcore hactive
    rw [predict_idle m params tempC h]
    constructor
    · intro heq
      exact Or.inr (by linear_combination heq)
    · rintro (hactive | hfloor)
      · exact absurd hactive hidle
      · rw [hfloor, sub_add_cancel]
  · obtain ⟨core, hcore⟩ := List.exists_mem_of_ne_nil _ h
    obtain ⟨hmem, hactive⟩ := List.mem_filter.mp hcore
    exact iff_of_true (predict_active m params tempC h) (Or.inl ⟨core, hmem, hactive⟩)

-- The same frequency and the same activity on every CPU.
def flatCell (pkg f busy : ℚ) (name : CString.Text) : Option ℚ :=
  if name = "pkg_w".toList then some pkg
  else if name.drop 4 = "_mhz".toList then some f
  else if name.drop 4 = "_busy".toList then some busy
  else none

noncomputable def flatRow (pkg f busy : ℚ) (name : CString.Text) : Option ℝ :=
  (flatCell pkg f busy name).map (Rat.cast ·)

-- A machine that idles at 400 MHz and 0.4 W.
def idleCell (name : CString.Text) : Option ℚ :=
  if name = "pkg_w".toList then some (2 / 5)
  else if name.drop 4 = "_mhz".toList then some 400
  else if name.drop 4 = "_busy".toList then some 0
  else none

noncomputable def idleRow (name : CString.Text) : Option ℝ := (idleCell name).map (Rat.cast ·)

theorem idleRow_eq : idleRow = flatRow (2 / 5) 400 0 := rfl

section Flat

variable {pkg f busy : ℚ}

theorem flatRow_column {cpu : Nat} (h : cpu < nLogicalCpus) :
    flatRow pkg f busy (column cpu "_mhz".toList) = some (f : ℝ) ∧
      flatRow pkg f busy (column cpu "_busy".toList) = some (busy : ℝ) := by
  have hnames : ∀ cpu < nLogicalCpus,
      column cpu "_mhz".toList ≠ "pkg_w".toList ∧ column cpu "_busy".toList ≠ "pkg_w".toList ∧
        (column cpu "_mhz".toList).drop 4 = "_mhz".toList ∧
        (column cpu "_busy".toList).drop 4 = "_busy".toList := by
    decide
  obtain ⟨hmhz, hbusy, hmhz', hbusy'⟩ := hnames cpu h
  have hother : ¬"_busy".toList = "_mhz".toList := by decide
  unfold flatRow flatCell
  rw [if_neg hmhz, if_pos hmhz', if_neg hbusy, hbusy', if_neg hother, if_pos rfl]
  exact ⟨rfl, rfl⟩

theorem foldSiblings_flat {pc : Nat} (h : pc < nPhysCores) :
    foldSiblings (fun cpu => flatRow pkg f busy (column cpu "_mhz".toList))
      (fun cpu => flatRow pkg f busy (column cpu "_busy".toList)) pc =
        some ((f : ℝ) * mhz, min 1 ((busy : ℝ) + busy)) := by
  unfold nPhysCores at h
  have hpc : pc < nLogicalCpus := by
    unfold nLogicalCpus
    omega
  have hsib : pc + smtSiblingStride < nLogicalCpus := by
    unfold smtSiblingStride nLogicalCpus
    omega
  unfold foldSiblings
  simp only [List.filter_cons, List.filter_nil, List.filterMap_cons, List.filterMap_nil, hpc, hsib,
    decide_true, if_true, flatRow_column, maxOf]
  simp

theorem loadRow_flatRow (hpos : 0 < pkg) (f busy : ℚ) :
    ∃ sample, loadRow (flatRow pkg f busy) = some sample ∧
      sample.phys = List.replicate nPhysCores ((f : ℝ) * mhz, min 1 ((busy : ℝ) + busy)) ∧
        sample.pkgW = pkg := by
  have hpkg : flatRow pkg f busy "pkg_w".toList = some (pkg : ℝ) := by
    unfold flatRow flatCell
    rw [if_pos rfl]
    rfl
  have hphys : (List.range nPhysCores).mapM (foldSiblings
      (fun cpu => flatRow pkg f busy (column cpu "_mhz".toList))
      (fun cpu => flatRow pkg f busy (column cpu "_busy".toList))) =
        some (List.replicate nPhysCores ((f : ℝ) * mhz, min 1 ((busy : ℝ) + busy))) := by
    rw [show List.range nPhysCores = [0, 1, 2, 3] from rfl]
    simp only [List.mapM_cons, List.mapM_nil,
      foldSiblings_flat (by decide : 0 < nPhysCores),
      foldSiblings_flat (by decide : 1 < nPhysCores),
      foldSiblings_flat (by decide : 2 < nPhysCores),
      foldSiblings_flat (by decide : 3 < nPhysCores)]
    rfl
  have hmhz : (List.range nLogicalCpus).all (fun cpu =>
      (flatRow pkg f busy (column cpu "_mhz".toList)).isNone) = false := by
    apply List.all_eq_false.mpr
    refine ⟨0, by decide, ?_⟩
    rw [(flatRow_column (by decide : 0 < nLogicalCpus)).1]
    simp
  have hpos' : ¬(pkg : ℝ) ≤ 0 := by simpa using hpos
  unfold loadRow
  simp only [hpkg, hpos', hmhz, hphys]
  exact ⟨_, rfl, rfl, rfl⟩

end Flat

theorem loadRow_idleRow : ∃ sample, loadRow idleRow = some sample ∧
    sample.phys = List.replicate nPhysCores (400000000, 0) := by
  rw [idleRow_eq]
  obtain ⟨sample, hload, hphys, -⟩ :=
    loadRow_flatRow (by norm_num : (0 : ℚ) < 2 / 5) 400 0
  refine ⟨sample, hload, ?_⟩
  rw [hphys]
  unfold mhz
  norm_num

/-- With the floor of the prior, an idle sample is predicted 0.75 W above the model. -/
theorem predict_ne_total_idle :
    ∃ sample, loadRow idleRow = some sample ∧
      (regressors realLibm sample.phys sample.tempC).predict priorParams ≠
        (packagePower realLibm priorParams sample.phys true sample.tempC).total := by
  obtain ⟨sample, hload, hphys⟩ := loadRow_idleRow
  refine ⟨sample, hload, ?_⟩
  have hidle : sample.phys.filter isActive = [] := by
    apply List.filter_eq_nil_iff.mpr
    intro core hcore
    rw [hphys] at hcore
    rw [List.eq_of_mem_replicate hcore]
    unfold isActive activityC6Eps
    norm_num
  rw [predict_idle realLibm priorParams sample.tempC hidle]
  have hfloor : (priorParams : Params ℝ).pSaFloor ≠ pPkgC6W := by
    unfold priorParams pPkgC6W
    norm_num
  intro heq
  exact hfloor (by linear_combination heq)

end Rail

end FakeBigLittle
