import FakeBigLittle.Rail.Tax

/-!
# The marginal power of a light task

`experiment_a` of `sim/rail_model.py`: light tasks next to one core at turbo, on a shared rail and
on split ones. A core that sleeps on the shared rail already leaks at the voltage of the big one,
so that waking it up can cost less there than on its own rail.
-/

namespace FakeBigLittle

namespace Rail

/-! ## The experiment -/

section Experiment

variable {K : Type} [Field K] [LinearOrder K]

def fBigHz : K := turboLimitHz 1

-- Physical cores that do not host the big thread.
def nFree : Nat := nPhysCores - 1

/-- The physical core of light thread `k`, the siblings after all cores, the big core's last. -/
def physCore (k : Nat) : Nat := if 2 * nFree ≤ k then 0 else 1 + k % nFree

-- `phys_light_activity[pc]`
def physLightActivity (lightActivity : K) (nLight pc : Nat) : K :=
  ((List.range nLight).map fun k => if physCore k = pc then lightActivity else 0).sum

def lightActivities (lightActivity : K) (nLight : Nat) : List K :=
  (List.range' 1 nFree).map fun pc => min (physLightActivity lightActivity nLight pc) 1

/-- A core with light threads; one without enough of them sleeps. -/
def lightCore (f a : K) : Core K := if activityC6Eps < a then (f, a) else (fMinHz, 0)

def baseStates : List (Core K) := (fBigHz, 1) :: List.replicate nFree (fMinHz, 0)

/-- `with_states`, and `naive_states` where `f` is the frequency of the big core. -/
def lightStates (f lightActivity : K) (nLight : Nat) : List (Core K) :=
  (fBigHz, 1) :: (lightActivities lightActivity nLight).map (lightCore f)

/-- A row of the experiment; `none` is the infinity of the ratio, and the NaN of the fractions. -/
structure LightRow (K : Type) where
  nLight : Nat
  nLightOnBigSibling : Nat
  marginalWShared : K
  marginalWSplit : K
  marginalWNoPartition : K
  railTaxW : K
  costRatioSharedOverSplit : Option K
  savingRetainedFrac : Option K
  savingDestroyedFrac : Option K
  pkgWShared : K
  pkgWSplit : K

/-- `detail`: one light core on either rail. -/
structure LightDetail (K : Type) where
  fBigGhz : K
  vRailBigV : K
  fLightGhz : K
  vLightIfSplitV : K
  lightActivity : K
  sharedDynW : K
  sharedLeakW : K
  splitDynW : K
  splitLeakW : K
  sharedTotalW : K
  splitTotalW : K
  costRatio : K
  vSquaredPenalty : K
  leakPenalty : K

variable (m : Libm K) (params : Params K)

def totalW (sharedRail : Bool) (tempC : K) (cores : List (Core K)) : K :=
  (packagePower m params cores sharedRail tempC).total

def lightRow (lightActivity fLightHz tempC : K) (nLight : Nat) : LightRow K :=
  let base := fun sharedRail => totalW m params sharedRail tempC baseStates
  let withLight := fun sharedRail =>
    totalW m params sharedRail tempC (lightStates fLightHz lightActivity nLight)
  let margSh := withLight true - base true
  let margSp := withLight false - base false
  let margNaive :=
    totalW m params true tempC (lightStates fBigHz lightActivity nLight) - base true
  let saveSh := margNaive - margSh
  let saveSp := margNaive - margSp
  let retained := if 0.000000001 < saveSp then some (saveSh / saveSp) else none
  { nLight := nLight
    nLightOnBigSibling := nLight - 2 * nFree
    marginalWShared := margSh
    marginalWSplit := margSp
    marginalWNoPartition := margNaive
    railTaxW := margSh - margSp
    costRatioSharedOverSplit := if 0.000000001 < margSp then some (margSh / margSp) else none
    savingRetainedFrac := retained
    savingDestroyedFrac := retained.map fun q => 1 - q
    pkgWShared := withLight true
    pkgWSplit := withLight false }

def lightDetail (lightActivity fLightHz tempC : K) : LightDetail K :=
  let vBig := vOfF (fBigHz : K)
  let vLit := vOfF fLightHz
  let dyn := fun v => lightActivity * params.cEff * v ^ 2 * fLightHz / ghz
  let leak := fun v => coreLeakageW m params v true tempC
  { fBigGhz := fBigHz / ghz
    vRailBigV := vBig
    fLightGhz := fLightHz / ghz
    vLightIfSplitV := vLit
    lightActivity := lightActivity
    sharedDynW := dyn vBig
    sharedLeakW := leak vBig
    splitDynW := dyn vLit
    splitLeakW := leak vLit
    sharedTotalW := dyn vBig + leak vBig
    splitTotalW := dyn vLit + leak vLit
    costRatio := (dyn vBig + leak vBig) / (dyn vLit + leak vLit)
    vSquaredPenalty := (vBig / vLit) ^ 2
    leakPenalty := leakShape m vBig / leakShape m vLit }

def experimentA (lightActivity fLightHz tempC : K) (maxLightCores : Nat) :
    List (LightRow K) × LightDetail K :=
  ((List.range' 1 maxLightCores).map (lightRow m params lightActivity fLightHz tempC),
    lightDetail m params lightActivity fLightHz tempC)

end Experiment

/-! ## Light cores -/

section Cores

variable {K : Type} [Field K] [LinearOrder K] [IsStrictOrderedRing K] {m : Libm K}
  {params : Params K} {tempC f vRail : K} {sharedRail : Bool}

/-- The activities of the cores that are woken up. -/
def awake (activities : List K) : List K := activities.filter (activityC6Eps < ·)

-- The voltage of an active light core, and of one that sleeps.
def vLight (sharedRail : Bool) (vRail f : K) : K := if sharedRail then vRail else vOfF f

theorem isActive_lightCore (f a : K) : isActive (lightCore f a) = decide (activityC6Eps < a) := by
  have heps : ¬activityC6Eps < (0 : K) := by
    unfold activityC6Eps
    norm_num
  unfold isActive lightCore
  by_cases h : activityC6Eps < a
  · simp [h]
  · simp [h, heps]

omit [IsStrictOrderedRing K] in
theorem lightCore_zero (f : K) (h : ¬activityC6Eps < (0 : K)) : lightCore f 0 = (fMinHz, 0) :=
  if_neg h

theorem dynOf_lightCores (activities : List K) :
    dynOf params sharedRail vRail (activities.map (lightCore f)) =
      (awake activities).sum * (params.cEff * vLight sharedRail vRail f ^ 2 * (f / ghz)) := by
  unfold dynOf awake
  induction activities with
  | nil => simp
  | cons a activities ih =>
    rw [List.map_cons, List.map_cons, List.sum_cons, ih, isActive_lightCore]
    by_cases h : activityC6Eps < a
    · have hcore : lightCore f a = (f, a) := if_pos h
      rw [List.filter_cons_of_pos (by simpa using h), List.sum_cons, decide_eq_true h, if_pos rfl,
        hcore]
      unfold vCore vLight
      rw [← hcore, isActive_lightCore, decide_eq_true h, hcore]
      simp only [if_true]
      ring
    · rw [List.filter_cons_of_neg (by simpa using h), decide_eq_false h]
      simp

theorem leakOf_lightCores (activities : List K) :
    leakOf m params sharedRail vRail tempC (activities.map (lightCore f)) =
      (awake activities).length *
          coreLeakageW m params (vLight sharedRail vRail f) true tempC +
        (activities.length - (awake activities).length) *
          coreLeakageW m params (vLight sharedRail vRail fMinHz) false tempC := by
  unfold leakOf awake
  induction activities with
  | nil => simp
  | cons a activities ih =>
    rw [List.map_cons, List.map_cons, List.sum_cons, ih, List.length_cons, isActive_lightCore]
    by_cases h : activityC6Eps < a
    · have hv : vCore sharedRail vRail (lightCore f a) = vLight sharedRail vRail f := by
        unfold vCore vLight
        rw [isActive_lightCore, decide_eq_true h, if_pos rfl, lightCore, if_pos h]
      rw [List.filter_cons_of_pos (by simpa using h), List.length_cons, hv, decide_eq_true h]
      push_cast
      ring
    · have hv : vCore sharedRail vRail (lightCore f a) = vLight sharedRail vRail fMinHz := by
        unfold vCore vLight
        rw [isActive_lightCore, decide_eq_false h]
        simp
      rw [List.filter_cons_of_neg (by simpa using h), hv, decide_eq_false h]
      push_cast
      ring

theorem aggActiveGhz_lightCores (activities : List K) :
    aggActiveGhz (activities.map (lightCore f)) = (awake activities).sum * (f / ghz) := by
  unfold aggActiveGhz awake
  induction activities with
  | nil => simp
  | cons a activities ih =>
    by_cases h : activityC6Eps < a
    · have hcore : lightCore f a = (f, a) := if_pos h
      rw [List.map_cons, List.filter_cons_of_pos (by rw [isActive_lightCore]; simpa using h),
        List.map_cons, List.sum_cons, ih, List.filter_cons_of_pos (by simpa using h),
        List.sum_cons, hcore]
      ring
    · rw [List.map_cons, List.filter_cons_of_neg (by rw [isActive_lightCore]; simpa using h), ih,
        List.filter_cons_of_neg (by simpa using h)]

/-! ## The cost of waking up -/

/-- The package next to the big core, with every light core that is awake at one frequency. -/
theorem totalW_beside {activities : List K} (hf : f ≤ fBigHz) :
    totalW m params sharedRail tempC ((fBigHz, 1) :: activities.map (lightCore f)) =
      (1 * params.cEff * vOfF fBigHz ^ 2 * (fBigHz / ghz) +
          (awake activities).sum *
            (params.cEff * vLight sharedRail (vOfF fBigHz) f ^ 2 * (f / ghz))) +
        (coreLeakageW m params (vOfF fBigHz) true tempC +
          ((awake activities).length *
              coreLeakageW m params (vLight sharedRail (vOfF fBigHz) f) true tempC +
            (activities.length - (awake activities).length) *
              coreLeakageW m params (vLight sharedRail (vOfF fBigHz) fMinHz) false tempC)) +
        (params.pSaFloor + ringPower fBigHz + kUncoreTrafficWPerGhz *
          (1 * fBigHz / ghz + (awake activities).sum * (f / ghz))) := by
  have heps : activityC6Eps < (1 : K) := by
    unfold activityC6Eps
    norm_num
  have hbig : isActive (fBigHz, (1 : K)) = true := decide_eq_true heps
  have hfilter : ((fBigHz, 1) :: activities.map (lightCore f)).filter isActive =
      (fBigHz, 1) :: (activities.map (lightCore f)).filter isActive :=
    List.filter_cons_of_pos hbig
  have hmax : maxFreq fMinHz ((fBigHz, 1) :: (activities.map (lightCore f)).filter isActive) =
      fBigHz := by
    refine maxFreq_eq fMinHz List.mem_cons_self fun core hcore => ?_
    rcases List.mem_cons.mp hcore with rfl | hcore
    · exact le_refl _
    obtain ⟨hmem, hactive⟩ := List.mem_filter.mp hcore
    obtain ⟨a, -, rfl⟩ := List.mem_map.mp hmem
    -- Only a core that is awake counts, and it is at `f`.
    rw [isActive_lightCore] at hactive
    rw [lightCore, if_pos (of_decide_eq_true hactive)]
    exact hf
  have hvolts : vCore sharedRail (vOfF fBigHz) (fBigHz, (1 : K)) = vOfF fBigHz := by
    unfold vCore
    rw [if_pos hbig, ite_self]
  have hdyn : dynOf params sharedRail (vOfF fBigHz) (activities.map (lightCore f)) = _ :=
    dynOf_lightCores activities
  have hleak : leakOf m params sharedRail (vOfF fBigHz) tempC (activities.map (lightCore f)) = _ :=
    leakOf_lightCores activities
  have hghz := aggActiveGhz_lightCores (f := f) activities
  unfold totalW
  rw [packagePower_total (by rw [hfilter]; exact List.cons_ne_nil _ _), hfilter, hmax]
  unfold dynOf at hdyn ⊢
  unfold leakOf at hleak ⊢
  unfold aggActiveGhz at hghz ⊢
  rw [hfilter, List.map_cons, List.map_cons, List.map_cons, List.sum_cons, List.sum_cons,
    List.sum_cons, hdyn, hleak, hghz, hbig, hvolts]
  rfl

omit [IsStrictOrderedRing K] in
theorem length_lightActivities (a : K) (n : Nat) : (lightActivities a n).length = nFree := by
  unfold lightActivities
  rw [List.length_map, List.length_range']

/-- The light tasks cost what their cores use when awake, less what these leak asleep. -/
theorem marginal_eq (hf : f ≤ fBigHz) (a : K) (n : Nat) :
    totalW m params sharedRail tempC (lightStates f a n) -
        totalW m params sharedRail tempC baseStates =
      (awake (lightActivities a n)).sum *
          (params.cEff * vLight sharedRail (vOfF fBigHz) f ^ 2 * (f / ghz)) +
        (awake (lightActivities a n)).length *
          (coreLeakageW m params (vLight sharedRail (vOfF fBigHz) f) true tempC -
            coreLeakageW m params (vLight sharedRail (vOfF fBigHz) fMinHz) false tempC) +
        kUncoreTrafficWPerGhz * ((awake (lightActivities a n)).sum * (f / ghz)) := by
  have heps : ¬activityC6Eps < (0 : K) := by
    unfold activityC6Eps
    norm_num
  have hbase : (baseStates : List (Core K)) =
      (fBigHz, 1) :: (List.replicate nFree 0).map (lightCore f) := by
    unfold baseStates
    rw [List.map_replicate, lightCore_zero f heps]
  have hasleep : awake (List.replicate nFree (0 : K)) = [] := by
    unfold awake
    rw [List.filter_replicate_of_neg (by simpa using heps)]
  unfold lightStates
  rw [hbase, totalW_beside hf, totalW_beside hf, hasleep, length_lightActivities,
    List.length_replicate, List.length_nil, List.sum_nil]
  push_cast
  ring

/-! ## The sign of the tax -/

/-- What the shared rail adds to the switching of the light cores. -/
def dynTaxW (params : Params K) (f : K) (activities : List K) : K :=
  (awake activities).sum * (params.cEff * (vOfF fBigHz ^ 2 - vOfF f ^ 2) * (f / ghz))

/-- What it adds to their leakage: a core awake there no longer sleeps at the high voltage. -/
def leakTaxW (m : Libm K) (params : Params K) (tempC f : K) (activities : List K) : K :=
  (awake activities).length * (params.kLeak * leakTempFactor m tempC *
    (leakShape m (vOfF fBigHz) * (1 - c6LeakResidual) -
      (leakShape m (vOfF f) - leakShape m (vOfF fMinHz) * c6LeakResidual)))

/-- The leakage alone makes the shared rail no cheaper. -/
def LeakCovered (m : Libm K) (f : K) : Prop :=
  leakShape m (vOfF f) ≤
    leakShape m (vOfF fBigHz) * (1 - c6LeakResidual) + leakShape m (vOfF fMinHz) * c6LeakResidual

theorem railTaxW_eq (hf : f ≤ fBigHz) (a : K) (n : Nat) :
    (lightRow m params a f tempC n).railTaxW =
      dynTaxW params f (lightActivities a n) + leakTaxW m params tempC f (lightActivities a n) := by
  have hmarginal (sharedRail : Bool) : totalW m params sharedRail tempC (lightStates f a n) -
      totalW m params sharedRail tempC baseStates = _ := marginal_eq hf a n
  refine (congrArg₂ (· - ·) (hmarginal true) (hmarginal false)).trans ?_
  simp only [vLight, coreLeakageW, if_true, Bool.false_eq_true, if_false]
  unfold dynTaxW leakTaxW
  ring

theorem activityC6Eps_pos : (0 : K) < activityC6Eps := by
  unfold activityC6Eps
  norm_num

theorem awake_sum_nonneg (activities : List K) : 0 ≤ (awake activities).sum := by
  refine List.sum_nonneg fun a ha => ?_
  have hawake := (List.mem_filter.mp ha).2
  exact activityC6Eps_pos.le.trans (of_decide_eq_true hawake).le

theorem dynTaxW_nonneg (hc : 0 ≤ params.cEff) (hmin : fMinHz ≤ f) (hf : f ≤ fBigHz)
    (activities : List K) : 0 ≤ dynTaxW params f activities := by
  have hfreq : 0 ≤ f / ghz := div_nonneg (fMinHz_pos.le.trans hmin) ghz_pos.le
  have hvolts : vOfF f ^ 2 ≤ vOfF fBigHz ^ 2 :=
    pow_le_pow_left₀ (vOfF_pos f).le (vOfF_mono hf) 2
  exact mul_nonneg (awake_sum_nonneg activities)
    (mul_nonneg (mul_nonneg hc (sub_nonneg.mpr hvolts)) hfreq)

theorem leakTaxW_nonneg (hm : m.Rises) (hk : 0 ≤ params.kLeak) (hleak : LeakCovered m f)
    (activities : List K) : 0 ≤ leakTaxW m params tempC f activities := by
  have htemp : 0 ≤ leakTempFactor m tempC := (hm.pow2_pos _).le
  unfold LeakCovered at hleak
  unfold leakTaxW
  refine mul_nonneg (Nat.cast_nonneg _) (mul_nonneg (mul_nonneg hk htemp) ?_)
  linarith

/-- The retained fraction compares the two rails as the tax does. -/
theorem savingRetainedFrac_le_one (a : K) (n : Nat)
    (hsave : 0.000000001 < (lightRow m params a f tempC n).marginalWNoPartition -
      (lightRow m params a f tempC n).marginalWSplit) :
    ∃ q, (lightRow m params a f tempC n).savingRetainedFrac = some q ∧
      (q ≤ 1 ↔ 0 ≤ (lightRow m params a f tempC n).railTaxW) := by
  have hpos : 0 < (lightRow m params a f tempC n).marginalWNoPartition -
      (lightRow m params a f tempC n).marginalWSplit := lt_trans (by norm_num) hsave
  refine ⟨_, if_pos hsave, (div_le_one hpos).trans ?_⟩
  exact (sub_le_sub_iff_left _).trans sub_nonneg.symm

end Cores

/-- At most at the all-core turbo limit the leakage is covered. -/
theorem leakCovered_allCore {f : ℝ} (hf : f ≤ turboLimitHz nPhysCores) :
    LeakCovered realLibm f := by
  have hall : vOfF (turboLimitHz nPhysCores : ℝ) = 1.115 := by
    unfold turboLimitHz turboBinsHz vOfF mhz vfFirst vfAnchors nPhysCores
    norm_num [Piecewise.interpolate, Piecewise.lastOf, Piecewise.between]
  have hbig : vOfF (fBigHz : ℝ) = 1.115 + 0.035 := by
    unfold fBigHz turboLimitHz turboBinsHz vOfF mhz vfFirst vfAnchors nPhysCores
    norm_num [Piecewise.interpolate, Piecewise.lastOf, Piecewise.between]
  have hlight : leakShape realLibm (vOfF f) ≤ leakShape realLibm 1.115 :=
    leakShape_mono realLibm_rises (vOfF_pos f) (hall ▸ vOfF_mono hf)
  have hidle : 0 ≤ leakShape realLibm (vOfF (fMinHz : ℝ)) :=
    mul_nonneg (vOfF_pos _).le (Real.exp_pos _).le
  -- The last 35 mV make up for the tenth that leaks asleep.
  have hrise : 1 + 0.035 / vtEffV ≤ Real.exp (0.035 / vtEffV) := by
    rw [add_comm]
    exact Real.add_one_le_exp _
  have hcover : leakShape realLibm 1.115 ≤ leakShape realLibm (1.115 + 0.035) * 0.9 := by
    have hexp : 0 < Real.exp (1.115 / vtEffV) := Real.exp_pos _
    have hsum : leakShape realLibm (1.115 + 0.035) =
        (1.115 + 0.035) * (Real.exp (1.115 / vtEffV) * Real.exp (0.035 / vtEffV)) := by
      rw [← Real.exp_add, ← add_div]
      rfl
    calc leakShape realLibm 1.115
        = 1.115 * Real.exp (1.115 / vtEffV) := rfl
      _ ≤ (1.115 + 0.035) * (1 + 0.035 / vtEffV) * 0.9 * Real.exp (1.115 / vtEffV) := by
          refine mul_le_mul_of_nonneg_right ?_ hexp.le
          norm_num [vtEffV]
      _ ≤ (1.115 + 0.035) * Real.exp (0.035 / vtEffV) * 0.9 * Real.exp (1.115 / vtEffV) := by
          gcongr
      _ = leakShape realLibm (1.115 + 0.035) * 0.9 := by
          rw [hsum]
          ring
  unfold LeakCovered
  rw [hbig, c6LeakResidual]
  linarith

/-- **The sign of the rail tax.** A row's tax is not negative exactly when what the shared rail
adds to the switching makes up for what it takes off the leakage; that is so wherever the
leakage is covered, up to the all-core turbo limit above all. The retained fraction, where
the split rails save anything, is at most one exactly then. -/
theorem rail_tax_sign (params : Params ℝ) (hc : 0 < params.cEff) (hk : 0 ≤ params.kLeak)
    (lightActivity fLightHz tempC : ℝ)
    (hf : fMinHz ≤ fLightHz ∧ fLightHz ≤ turboLimitHz 1) (maxLightCores : Nat) :
    ∀ row ∈ (experimentA realLibm params lightActivity fLightHz tempC maxLightCores).1,
      (0 ≤ row.railTaxW ↔
        0 ≤ dynTaxW params fLightHz (lightActivities lightActivity row.nLight) +
          leakTaxW realLibm params tempC fLightHz (lightActivities lightActivity row.nLight)) ∧
      (LeakCovered realLibm fLightHz → 0 ≤ row.railTaxW) ∧
      (fLightHz ≤ turboLimitHz nPhysCores → 0 ≤ row.railTaxW) ∧
      (0.000000001 < row.marginalWNoPartition - row.marginalWSplit →
        ∃ q, row.savingRetainedFrac = some q ∧ (q ≤ 1 ↔ 0 ≤ row.railTaxW)) := by
  intro row hrow
  obtain ⟨n, -, rfl⟩ := List.mem_map.mp hrow
  have htax : (lightRow realLibm params lightActivity fLightHz tempC n).railTaxW = _ :=
    railTaxW_eq hf.2 lightActivity n
  have hcovered : LeakCovered realLibm fLightHz →
      0 ≤ (lightRow realLibm params lightActivity fLightHz tempC n).railTaxW := by
    intro hleak
    rw [htax]
    exact add_nonneg (dynTaxW_nonneg hc.le hf.1 hf.2 _)
      (leakTaxW_nonneg realLibm_rises hk hleak _)
  exact ⟨by rw [htax]; rfl, hcovered, fun hall => hcovered (leakCovered_allCore hall),
    savingRetainedFrac_le_one lightActivity n⟩

/-- Three light tasks at the default frequency. -/
theorem rail_tax_sign_default :
    0 ≤ (lightRow realLibm priorParams 0.15 fLittleHz 60 3).railTaxW := by
  refine (rail_tax_sign priorParams (by norm_num [priorParams]) (by norm_num [priorParams])
    0.15 fLittleHz 60 ?_ 7 _ (List.mem_map_of_mem (by simp))).2.2.1 ?_
  · norm_num [fLittleHz, fMinHz, turboLimitHz, turboBinsHz, nPhysCores]
  · norm_num [fLittleHz, turboLimitHz, turboBinsHz, nPhysCores]

/-- At the turbo limit itself the light core on the shared rail is the cheaper one. -/
theorem rail_tax_sign_fails :
    ∃ row ∈ (experimentA realLibm priorParams 0.15 fBigHz 60 7).1, row.railTaxW < 0 := by
  have hactivities : awake (lightActivities (0.15 : ℝ) 1) = [0.15] := by
    norm_num [awake, lightActivities, physLightActivity, physCore, nFree, nPhysCores,
      List.range', List.range_succ, activityC6Eps]
  have hvolts : vOfF (fMinHz : ℝ) < vOfF fBigHz := by
    unfold fBigHz turboLimitHz turboBinsHz vOfF fMinHz mhz vfFirst vfAnchors nPhysCores
    norm_num [Piecewise.interpolate, Piecewise.lastOf, Piecewise.between]
  have hshape : leakShape realLibm (vOfF fMinHz) < leakShape realLibm (vOfF fBigHz) := by
    have hexp : Real.exp (vOfF fMinHz / vtEffV) ≤ Real.exp (vOfF fBigHz / vtEffV) :=
      Real.exp_le_exp.mpr (div_le_div_of_nonneg_right hvolts.le (by norm_num [vtEffV]))
    exact mul_lt_mul hvolts hexp (Real.exp_pos _) (vOfF_pos _).le
  have htemp : 0 < leakTempFactor realLibm 60 := realLibm_rises.pow2_pos _
  refine ⟨lightRow realLibm priorParams 0.15 fBigHz 60 1,
    List.mem_map_of_mem (by simp), ?_⟩
  rw [railTaxW_eq (le_refl _)]
  unfold dynTaxW leakTaxW
  rw [hactivities]
  -- No switching is saved at equal voltages, and the sleeping core leaks less on its own rail.
  have hgain : leakShape realLibm (vOfF fMinHz) * c6LeakResidual <
      leakShape realLibm (vOfF fBigHz) * c6LeakResidual :=
    mul_lt_mul_of_pos_right hshape (by norm_num [c6LeakResidual])
  have hbracket : leakShape realLibm (vOfF fBigHz) * (1 - c6LeakResidual) -
      (leakShape realLibm (vOfF fBigHz) -
        leakShape realLibm (vOfF fMinHz) * c6LeakResidual) < 0 := by
    linarith
  have hleak := mul_neg_of_pos_of_neg (mul_pos (show 0 < (priorParams : Params ℝ).kLeak by
    norm_num [priorParams]) htemp) hbracket
  simpa using hleak

end Rail

end FakeBigLittle
