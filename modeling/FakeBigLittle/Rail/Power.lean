import FakeBigLittle.Rail.Spec
import Mathlib.Algebra.BigOperators.Ring.List
import Mathlib.Algebra.Order.BigOperators.Group.List
import Mathlib.Analysis.SpecialFunctions.Pow.Real
import Mathlib.Tactic.NormNum

/-!
# What a shared rail costs

The voltage and the leakage rise with the frequency, so a core on the rail of the fastest one
never pays less than on its own.
-/

namespace FakeBigLittle

namespace Rail

variable {K : Type} [Field K] [LinearOrder K] [IsStrictOrderedRing K]

/-! ## Voltage -/

theorem vfAnchors_rising : Piecewise.Rising (vfFirst : K × K) vfAnchors := by
  unfold vfFirst vfAnchors
  simp only [Piecewise.Rising]
  norm_num

theorem vOfF_mono : Monotone (vOfF : K → K) := by
  intro f f' hle
  unfold vOfF
  apply Piecewise.interpolate_monotone vfAnchors_rising
  have hmhz : (0 : K) ≤ mhz := by
    unfold mhz
    norm_num
  exact div_le_div_of_nonneg_right hle hmhz

/-- No frequency needs less than the lowest one. -/
theorem vOfF_fMin_le (f : K) : vOfF fMinHz ≤ vOfF f := by
  have hmin : vOfF (fMinHz : K) = vfFirst.2 := by
    unfold vOfF fMinHz mhz
    rw [Piecewise.interpolate_eq vfAnchors_rising, if_pos]
    unfold vfFirst
    norm_num
  rw [hmin]
  exact Piecewise.le_interpolate vfAnchors_rising _

theorem vOfF_pos (f : K) : 0 < vOfF f := by
  have hfirst : (0 : K) < vfFirst.2 := by
    unfold vfFirst
    norm_num
  exact hfirst.trans_le (Piecewise.le_interpolate vfAnchors_rising _)

/-! ## Leakage -/

/-- What is used of the `math` library. -/
structure Libm.Rises (m : Libm K) : Prop where
  exp_pos : ∀ x, 0 < m.exp x
  exp_mono : Monotone m.exp
  pow2_pos : ∀ x, 0 < m.pow2 x

theorem leakShape_mono {m : Libm K} (hm : m.Rises) {v v' : K} (hv : 0 < v) (hle : v ≤ v') :
    leakShape m v ≤ leakShape m v' := by
  have hvt : (0 : K) ≤ vtEffV := by
    unfold vtEffV
    norm_num
  have hexp : m.exp (v / vtEffV) ≤ m.exp (v' / vtEffV) :=
    hm.exp_mono (div_le_div_of_nonneg_right hle hvt)
  unfold leakShape
  exact mul_le_mul hle hexp (hm.exp_pos _).le (hv.le.trans hle)

theorem coreLeakageW_mono {m : Libm K} (hm : m.Rises) {params : Params K}
    (hk : 0 ≤ params.kLeak) {v v' : K} (hv : 0 < v) (hle : v ≤ v') (active : Bool) (tempC : K) :
    coreLeakageW m params v active tempC ≤ coreLeakageW m params v' active tempC := by
  have htemp : 0 ≤ leakTempFactor m tempC := (hm.pow2_pos _).le
  have hg : params.kLeak * leakShape m v * leakTempFactor m tempC ≤
      params.kLeak * leakShape m v' * leakTempFactor m tempC :=
    mul_le_mul_of_nonneg_right (mul_le_mul_of_nonneg_left (leakShape_mono hm hv hle) hk) htemp
  have hresidual : (0 : K) ≤ c6LeakResidual := by
    unfold c6LeakResidual
    norm_num
  unfold coreLeakageW
  cases active with
  | true => exact hg
  | false => exact mul_le_mul_of_nonneg_right hg hresidual

/-! ## The fastest active core -/

section Fastest

variable {cores : List (Core K)} {core : Core K}

omit [Field K] [IsStrictOrderedRing K] in
theorem le_foldl_max (cores : List (Core K)) (f : K) :
    f ≤ cores.foldl (fun f c => max f c.1) f ∧
      ∀ c ∈ cores, c.1 ≤ cores.foldl (fun f c => max f c.1) f := by
  induction cores generalizing f with
  | nil => exact ⟨le_refl _, List.forall_mem_nil _⟩
  | cons c cores ih =>
    obtain ⟨hfirst, hrest⟩ := ih (max f c.1)
    refine ⟨(le_max_left _ _).trans hfirst, List.forall_mem_cons.mpr ⟨?_, hrest⟩⟩
    exact (le_max_right _ _).trans hfirst

omit [Field K] [IsStrictOrderedRing K] in
theorem le_maxFreq (d : K) (h : core ∈ cores) : core.1 ≤ maxFreq d cores := by
  cases cores with
  | nil => simp at h
  | cons c cores =>
    obtain ⟨hfirst, hrest⟩ := le_foldl_max cores c.1
    rcases List.mem_cons.mp h with rfl | h
    · exact hfirst
    · exact hrest core h

omit [Field K] [IsStrictOrderedRing K] in
theorem maxFreq_const {f : K} (d : K) (hne : cores ≠ []) (h : ∀ core ∈ cores, core.1 = f) :
    maxFreq d cores = f := by
  obtain ⟨c, cs, rfl⟩ := List.exists_cons_of_ne_nil hne
  obtain ⟨hc, hcs⟩ := List.forall_mem_cons.mp h
  have hfold : ∀ cs : List (Core K), (∀ core ∈ cs, core.1 = f) →
      cs.foldl (fun f c => max f c.1) f = f := by
    intro cs hcs
    induction cs with
    | nil => rfl
    | cons c cs ih =>
      obtain ⟨hc, hcs⟩ := List.forall_mem_cons.mp hcs
      rw [List.foldl_cons, hc, max_self]
      exact ih hcs
  rw [maxFreq, hc]
  exact hfold cs hcs

theorem vCore_le (hcore : core ∈ cores) :
    vCore false (vOfF (maxFreq fMinHz (cores.filter isActive))) core ≤
      vOfF (maxFreq fMinHz (cores.filter isActive)) := by
  unfold vCore
  rw [if_neg Bool.false_ne_true]
  split_ifs with hactive
  · exact vOfF_mono (le_maxFreq _ (List.mem_filter.mpr ⟨hcore, hactive⟩))
  · exact vOfF_fMin_le _

theorem activity_pos (h : isActive core = true) : 0 < core.2 := by
  have heps : (0 : K) < activityC6Eps := by
    unfold activityC6Eps
    norm_num
  exact heps.trans (of_decide_eq_true h)

end Fastest

/-! ## Shared against split -/

section Shared

variable {m : Libm K} {params : Params K} {cores : List (Core K)} {tempC : K}

theorem dynOf_split_le (hc : 0 ≤ params.cEff) (hfreq : ∀ core ∈ cores, 0 ≤ core.1) :
    dynOf params false (vOfF (maxFreq fMinHz (cores.filter isActive))) cores ≤
      dynOf params true (vOfF (maxFreq fMinHz (cores.filter isActive))) cores := by
  unfold dynOf
  apply List.sum_le_sum
  intro core hcore
  split_ifs with hactive
  · have hghz : (0 : K) ≤ ghz := by
      unfold ghz
      norm_num
    have hsquare : vCore false (vOfF (maxFreq fMinHz (cores.filter isActive))) core ^ 2 ≤
        vOfF (maxFreq fMinHz (cores.filter isActive)) ^ 2 := by
      refine pow_le_pow_left₀ ?_ (vCore_le hcore) 2
      unfold vCore
      exact (vOfF_pos _).le
    have hactivity : 0 ≤ core.2 * params.cEff := mul_nonneg (activity_pos hactive).le hc
    have hclock : 0 ≤ core.1 / ghz := div_nonneg (hfreq core hcore) hghz
    exact mul_le_mul_of_nonneg_right (mul_le_mul_of_nonneg_left hsquare hactivity) hclock
  · exact le_refl _

theorem leakOf_split_le (hm : m.Rises) (hk : 0 ≤ params.kLeak) (cores : List (Core K)) (tempC : K) :
    leakOf m params false (vOfF (maxFreq fMinHz (cores.filter isActive))) tempC cores ≤
      leakOf m params true (vOfF (maxFreq fMinHz (cores.filter isActive))) tempC cores := by
  unfold leakOf
  apply List.sum_le_sum
  intro core hcore
  refine coreLeakageW_mono hm hk ?_ (vCore_le hcore) _ _
  unfold vCore
  exact vOfF_pos _

/-- The cores that cannot tell the rails apart. -/
def Alike (cores : List (Core K)) : Prop :=
  (∀ core ∈ cores, isActive core = false) ∨
    ∃ f, ∀ core ∈ cores, isActive core = true ∧ core.1 = f

omit [IsStrictOrderedRing K] in
theorem vCore_alike {f : K} (h : ∀ core ∈ cores, isActive core = true ∧ core.1 = f)
    {core : Core K} (hcore : core ∈ cores) :
    vCore false (vOfF (maxFreq fMinHz (cores.filter isActive))) core =
      vCore true (vOfF (maxFreq fMinHz (cores.filter isActive))) core := by
  have hall : cores.filter isActive = cores :=
    List.filter_eq_self.mpr fun core hcore => (h core hcore).1
  have hmax : maxFreq fMinHz cores = f :=
    maxFreq_const _ (List.ne_nil_of_mem hcore) fun core hcore => (h core hcore).2
  unfold vCore
  rw [if_neg Bool.false_ne_true, if_pos rfl, if_pos (h core hcore).1, (h core hcore).2, hall, hmax]

omit [IsStrictOrderedRing K] in
theorem packagePower_alike (h : Alike cores) :
    (packagePower m params cores true tempC).total =
      (packagePower m params cores false tempC).total := by
  obtain hidle | ⟨f, hsame⟩ := h
  · have hnone : cores.filter isActive = [] :=
      List.filter_eq_nil_iff.mpr fun core hcore => by simp [hidle core hcore]
    unfold packagePower
    rw [if_pos hnone, if_pos hnone]
  · have hdyn : ∀ params : Params K,
        dynOf params true (vOfF (maxFreq fMinHz (cores.filter isActive))) cores =
          dynOf params false (vOfF (maxFreq fMinHz (cores.filter isActive))) cores := by
      intro params
      unfold dynOf
      congr 1
      apply List.map_congr_left
      intro core hcore
      rw [vCore_alike hsame hcore]
    have hleak : leakOf m params true (vOfF (maxFreq fMinHz (cores.filter isActive))) tempC cores =
        leakOf m params false (vOfF (maxFreq fMinHz (cores.filter isActive))) tempC cores := by
      unfold leakOf
      congr 1
      apply List.map_congr_left
      intro core hcore
      rw [vCore_alike hsame hcore]
    unfold packagePower
    split_ifs
    · rfl
    · simp only [hdyn, hleak]

theorem packagePower_split_le (hm : m.Rises) (hc : 0 ≤ params.cEff) (hk : 0 ≤ params.kLeak)
    (hfreq : ∀ core ∈ cores, 0 ≤ core.1) (tempC : K) :
    (packagePower m params cores false tempC).dyn ≤ (packagePower m params cores true tempC).dyn ∧
    (packagePower m params cores false tempC).leak ≤
      (packagePower m params cores true tempC).leak ∧
    (packagePower m params cores true tempC).uncore =
      (packagePower m params cores false tempC).uncore ∧
    (packagePower m params cores false tempC).total ≤
      (packagePower m params cores true tempC).total := by
  unfold packagePower
  split_ifs
  · exact ⟨le_refl _, le_refl _, rfl, le_refl _⟩
  · have hdyn := dynOf_split_le hc hfreq
    have hleak := leakOf_split_le hm hk cores tempC
    exact ⟨hdyn, hleak, rfl, add_le_add_left (add_le_add hdyn hleak) _⟩

end Shared

/-! ## The model with the real exponential -/

noncomputable def realLibm : Libm ℝ := ⟨Real.exp, fun x => 2 ^ x⟩

theorem realLibm_rises : realLibm.Rises where
  exp_pos := Real.exp_pos
  exp_mono := Real.exp_monotone
  pow2_pos x := Real.rpow_pos_of_pos (by norm_num) x

/-- **A shared rail never beats split rails.** -/
theorem shared_rail_never_beats (params : Params ℝ) (hc : 0 ≤ params.cEff)
    (hk : 0 ≤ params.kLeak) (cores : List (Core ℝ))
    (hcores : ∀ core ∈ cores, 0 ≤ core.1 ∧ 0 ≤ core.2) (tempC : ℝ) :
    let shared := packagePower realLibm params cores true tempC
    let split := packagePower realLibm params cores false tempC
    split.dyn ≤ shared.dyn ∧ split.leak ≤ shared.leak ∧ shared.uncore = split.uncore ∧
      split.total ≤ shared.total ∧ (Alike cores → shared.total = split.total) := by
  intro shared split
  obtain ⟨hdyn, hleak, huncore, htotal⟩ := packagePower_split_le realLibm_rises hc hk
    (fun core hcore => (hcores core hcore).1) tempC
  exact ⟨hdyn, hleak, huncore, htotal, packagePower_alike⟩

/-- One core at 4 GHz next to one that idles at 400 MHz. -/
theorem shared_rail_never_beats_two :
    (packagePower realLibm ⟨2, 1, 1⟩ [(4000000000, 1), (400000000, 0)] false 60).leak ≤
      (packagePower realLibm ⟨2, 1, 1⟩ [(4000000000, 1), (400000000, 0)] true 60).leak :=
  (shared_rail_never_beats ⟨2, 1, 1⟩ (by norm_num) (by norm_num)
    [(4000000000, 1), (400000000, 0)] (by simp) 60).2.1

end Rail

end FakeBigLittle
