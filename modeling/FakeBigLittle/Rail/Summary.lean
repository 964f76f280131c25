import FakeBigLittle.Rail.Tax
import Mathlib.Data.List.MinMax

/-!
# The summary of the sweep

The `summary` of `experiment_b`: the best partition on either rail, and what a partition is worth.
-/

namespace FakeBigLittle

namespace Rail

variable {K : Type} [Field K] [LinearOrder K]

/-! ## The rows that count -/

-- `feas or rows`
def feasibleRows (rows : List (Row K)) : List (Row K) :=
  let feas := rows.filter fun r => r.finishedInHorizon
  if feas.isEmpty then rows else feas

/-- `none` is `ValueError`. -/
def bestOf (rows : List (Row K)) : Option (Row K) := (feasibleRows rows).argmin fun r => r.energyJ

def interior (rows : List (Row K)) : Option Bool :=
  (bestOf rows).map fun b => decide (0 < b.nBig) && decide (b.nBig < nPhysCores)

/-- `none` is `IndexError`. -/
def allBig (rows : List (Row K)) : Option (Row K) :=
  (rows.filter fun r => r.nBig = nPhysCores).head?

/-- `none` is `ValueError` or `ZeroDivisionError`. -/
def spread (rows : List (Row K)) : Option K := do
  let most ← (feasibleRows rows).argmax fun r => r.energyJ
  let least ← (feasibleRows rows).argmin fun r => r.energyJ
  if least.energyJ = 0 then none
  else some ((most.energyJ - least.energyJ) / least.energyJ)

structure Summary (K : Type) where
  bestNBigShared : Nat
  bestEnergyJShared : K
  bestNBigSplit : Nat
  bestEnergyJSplit : K
  interiorOptimumShared : Bool
  interiorOptimumSplit : Bool
  energyGapJ : K
  energyGapPct : K
  partitionBenefitJShared : K
  partitionBenefitJSplit : K
  -- `none` is NaN
  partitionBenefitRetainedFrac : Option K
  curveSpreadFracShared : K
  curveSpreadFracSplit : K
  railTaxByNBig : List (RailTax K)
  pl1Applied : Bool

def summary (results : List (Row K)) (applyPl1 : Bool) : Option (Summary K) := do
  let sharedRows := results.filter fun r => r.sharedRail
  let splitRows := results.filter fun r => !r.sharedRail
  let bestShared ← bestOf sharedRows
  let bestSplit ← bestOf splitRows
  let allBigShared ← allBig sharedRows
  let allBigSplit ← allBig splitRows
  let benShared := allBigShared.energyJ - bestShared.energyJ
  let benSplit := allBigSplit.energyJ - bestSplit.energyJ
  let perN ← railTaxByNBig results
  let interiorShared ← interior sharedRows
  let interiorSplit ← interior splitRows
  let spreadShared ← spread sharedRows
  let spreadSplit ← spread splitRows
  some
    { bestNBigShared := bestShared.nBig
      bestEnergyJShared := bestShared.energyJ
      bestNBigSplit := bestSplit.nBig
      bestEnergyJSplit := bestSplit.energyJ
      interiorOptimumShared := interiorShared
      interiorOptimumSplit := interiorSplit
      energyGapJ := bestShared.energyJ - bestSplit.energyJ
      energyGapPct := (100 : Nat) * (bestShared.energyJ - bestSplit.energyJ) / bestSplit.energyJ
      partitionBenefitJShared := benShared
      partitionBenefitJSplit := benSplit
      partitionBenefitRetainedFrac := if benSplit > 0.000000001 then some (benShared / benSplit)
        else none
      curveSpreadFracShared := spreadShared
      curveSpreadFracSplit := spreadSplit
      railTaxByNBig := perN
      pl1Applied := applyPl1 }

/-! ## The best row -/

section Best

variable {rows : List (Row K)} {b r : Row K}

omit [Field K] [LinearOrder K] in
theorem mem_feasibleRows (h : r ∈ feasibleRows rows) : r ∈ rows := by
  unfold feasibleRows at h
  simp only at h
  split_ifs at h
  · exact h
  · exact List.mem_of_mem_filter h

omit [Field K] [LinearOrder K] in
/-- A feasible row counts, and a row that misses the deadline does so only if all do. -/
theorem feasibleRows_cases (h : r ∈ feasibleRows rows) :
    r.finishedInHorizon = true ∨ ∀ r' ∈ rows, r'.finishedInHorizon = false := by
  unfold feasibleRows at h
  simp only at h
  split_ifs at h with hnone
  · refine Or.inr fun r' hr' => ?_
    have hmem := List.filter_eq_nil_iff.mp (List.isEmpty_iff.mp hnone) r' hr'
    simpa using hmem
  · exact Or.inl (List.mem_filter.mp h).2

omit [Field K] [LinearOrder K] in
theorem mem_feasibleRows_of_feasible (h : r ∈ rows) (hr : r.finishedInHorizon = true) :
    r ∈ feasibleRows rows := by
  have hmem : r ∈ rows.filter fun r => r.finishedInHorizon := List.mem_filter.mpr ⟨h, hr⟩
  unfold feasibleRows
  simp only
  split_ifs
  · exact h
  · exact hmem

omit [Field K] [LinearOrder K] in
/-- Where no row is feasible, all of them count. -/
theorem feasibleRows_of_none (h : ∀ r' ∈ rows, r'.finishedInHorizon = false) :
    feasibleRows rows = rows := by
  have hnone : rows.filter (fun r => r.finishedInHorizon) = [] :=
    List.filter_eq_nil_iff.mpr fun r hr => by simp [h r hr]
  unfold feasibleRows
  simp [hnone]

omit [Field K] in
theorem bestOf_le (h : bestOf rows = some b) (hr : r ∈ feasibleRows rows) :
    b.energyJ ≤ r.energyJ := List.le_of_mem_argmin hr h

omit [Field K] in
theorem bestOf_mem (h : bestOf rows = some b) : b ∈ feasibleRows rows := List.argmin_mem h

omit [Field K] [LinearOrder K] in
theorem feasibleRows_ne_nil (h : rows ≠ []) : feasibleRows rows ≠ [] := by
  unfold feasibleRows
  simp only
  split_ifs with hnone
  · exact h
  · simpa using hnone

omit [Field K] in
/-- Of two curves with the same feasible points, the lower one has the lower optimum. -/
theorem bestOf_mono {ι : Type} {is : List ι} {f g : ι → Row K} {b' : Row K}
    (hsame : ∀ i ∈ is, (f i).finishedInHorizon = (g i).finishedInHorizon)
    (hle : ∀ i ∈ is, (f i).energyJ ≤ (g i).energyJ) (hb : bestOf (is.map f) = some b)
    (hb' : bestOf (is.map g) = some b') : b.energyJ ≤ b'.energyJ := by
  obtain ⟨i, hi, rfl⟩ := List.mem_map.mp (mem_feasibleRows (bestOf_mem hb'))
  refine (bestOf_le hb (r := f i) ?_).trans (hle i hi)
  rcases feasibleRows_cases (bestOf_mem hb') with hfeas | hnone
  · exact mem_feasibleRows_of_feasible (List.mem_map_of_mem hi) ((hsame i hi).trans hfeas)
  · rw [feasibleRows_of_none]
    · exact List.mem_map_of_mem hi
    · rintro r hr
      obtain ⟨j, hj, rfl⟩ := List.mem_map.mp hr
      exact (hsame j hj).trans (hnone (g j) (List.mem_map_of_mem hj))

end Best

/-! ## Power is used -/

section Positive

variable [IsStrictOrderedRing K] {m : Libm K} {params : Params K} {w : Workload K}

theorem ringPower_pos (f : K) : 0 < ringPower f := by
  have hring : (0 : K) < ringHz f := by
    unfold ringHz fRingMinHz fRingMaxHz
    exact lt_min (lt_max_of_lt_right (by norm_num)) (by norm_num)
  have hcost : (0 : K) < cRingWPerV2Ghz := by
    unfold cRingWPerV2Ghz
    norm_num
  exact mul_pos (mul_pos hcost (pow_pos (vOfF_pos _) 2)) (div_pos hring ghz_pos)

theorem coreLeakageW_nonneg (hm : m.Rises) (hk : 0 ≤ params.kLeak) {v : K} (hv : 0 < v)
    (active : Bool) (tempC : K) : 0 ≤ coreLeakageW m params v active tempC := by
  have hg : 0 ≤ params.kLeak * leakShape m v * leakTempFactor m tempC :=
    mul_nonneg (mul_nonneg hk (mul_pos hv (hm.exp_pos _)).le) (hm.pow2_pos _).le
  have hresidual : (0 : K) ≤ c6LeakResidual := by
    unfold c6LeakResidual
    norm_num
  unfold coreLeakageW
  cases active with
  | true => exact hg
  | false => exact mul_nonneg hg hresidual

theorem packagePower_pos (hm : m.Rises) (hc : 0 ≤ params.cEff) (hk : 0 ≤ params.kLeak)
    (hsa : 0 ≤ params.pSaFloor) {cores : List (Core K)} (hfreq : ∀ core ∈ cores, 0 ≤ core.1)
    (sharedRail : Bool) (tempC : K) :
    0 < (packagePower m params cores sharedRail tempC).total := by
  unfold packagePower
  split_ifs
  · have hleak : 0 ≤ (cores.map fun _ =>
        coreLeakageW m params (vOfF fMinHz) false tempC).sum := by
      refine List.sum_nonneg fun x hx => ?_
      obtain ⟨core, -, rfl⟩ := List.mem_map.mp hx
      exact coreLeakageW_nonneg hm hk (vOfF_pos _) _ _
    have hidle : (0 : K) < pPkgC6W := by
      unfold pPkgC6W
      norm_num
    exact add_pos_of_nonneg_of_pos hleak hidle
  · have hdyn : 0 ≤ dynOf params sharedRail (vOfF (maxFreq fMinHz (cores.filter isActive)))
        cores := by
      refine List.sum_nonneg fun x hx => ?_
      obtain ⟨core, hcore, rfl⟩ := List.mem_map.mp hx
      split_ifs with hactive
      · exact mul_nonneg (mul_nonneg (mul_nonneg (activity_pos hactive).le hc) (sq_nonneg _))
          (div_nonneg (hfreq core hcore) ghz_pos.le)
      · exact le_refl _
    have hleak : 0 ≤ leakOf m params sharedRail (vOfF (maxFreq fMinHz (cores.filter isActive)))
        tempC cores := by
      refine List.sum_nonneg fun x hx => ?_
      obtain ⟨core, -, rfl⟩ := List.mem_map.mp hx
      exact coreLeakageW_nonneg hm hk (vCore_pos sharedRail (vOfF_pos _) core) _ _
    have htraffic : 0 ≤ kUncoreTrafficWPerGhz * aggActiveGhz cores := by
      have hcost : (0 : K) ≤ kUncoreTrafficWPerGhz := by
        unfold kUncoreTrafficWPerGhz
        norm_num
      refine mul_nonneg hcost (List.sum_nonneg fun x hx => ?_)
      obtain ⟨core, hcore, rfl⟩ := List.mem_map.mp hx
      obtain ⟨hmem, hactive⟩ := List.mem_filter.mp hcore
      exact div_nonneg (mul_nonneg (activity_pos hactive).le (hfreq core hmem)) ghz_pos.le
    have hring := ringPower_pos (maxFreq fMinHz (cores.filter isActive))
    simp only
    linarith

/-! ## The two curves -/

/-- Split rails draw no more, so under the cap they clock no lower. -/
theorem freqUnderPowerCap_split_le (hm : m.Rises) (hc : 0 ≤ params.cEff) (hk : 0 ≤ params.kLeak)
    {n : Nat} {activity ceiling capW tempC : K} {others : List (Core K)}
    (hle : fMinHz ≤ ceiling) (hothers : ∀ core ∈ others, 0 ≤ core.1) :
    freqUnderPowerCap m params n activity ceiling capW true tempC others ≤
      freqUnderPowerCap m params n activity ceiling capW false tempC others := by
  have hpower : ∀ f : K, fMinHz ≤ f → pAt m params n activity false tempC others f ≤
      pAt m params n activity true tempC others f := fun f hf =>
    pAt_split_le hm hc hk (fMinHz_pos.le.trans hf) hothers
  have hmem : freqUnderPowerCap m params n activity ceiling capW true tempC others ≤ ceiling :=
    (freqUnderPowerCap_mem hle).2
  by_cases hlow : pAt m params n activity true tempC others fMinHz ≥ capW
  · have hshared : freqUnderPowerCap m params n activity ceiling capW true tempC others =
        fMinHz := if_pos hlow
    rw [hshared]
    exact (freqUnderPowerCap_mem hle).1
  have hlow' : ¬ pAt m params n activity false tempC others fMinHz ≥ capW := fun h =>
    hlow (h.trans (hpower _ (le_refl _)))
  by_cases hhigh' : pAt m params n activity false tempC others ceiling ≤ capW
  · have hsplit : freqUnderPowerCap m params n activity ceiling capW false tempC others =
        ceiling := (if_neg hlow').trans (if_pos hhigh')
    rw [hsplit]
    exact hmem
  have hhigh : ¬ pAt m params n activity true tempC others ceiling ≤ capW := fun h =>
    hhigh' ((hpower _ hle).trans h)
  unfold freqUnderPowerCap
  simp only
  rw [if_neg hlow, if_neg hhigh, if_neg hlow', if_neg hhigh']
  refine Bisect.search_mono hle fun f hf hover => ?_
  exact decide_eq_true ((of_decide_eq_true hover).trans_le (hpower f hf))

theorem fWorkHz_split_le (hm : m.Rises) (hc : 0 ≤ params.cEff) (hk : 0 ≤ params.kLeak)
    (w : Workload K) (tempC : K) (applyPl1 : Bool) (n : Nat) :
    (rowSetup tempC applyPl1 n true).fWorkHz m params w ≤
      (rowSetup tempC applyPl1 n false).fWorkHz m params w := by
  by_cases hcap : (applyPl1 && decide (n > 0)) = true
  · have hwork : ∀ sharedRail, (rowSetup tempC applyPl1 n sharedRail).fWorkHz m params w =
        freqUnderPowerCap m params (rowSetup tempC applyPl1 n true).nWork 1
          (rowSetup tempC applyPl1 n true).fCeilingHz pl1W sharedRail tempC
          ((rowSetup tempC applyPl1 n true).bgStatesFixed w) := fun _ => if_pos hcap
    rw [hwork, hwork]
    exact freqUnderPowerCap_split_le hm hc hk (fCeilingHz_mem _).1 (bgStatesFixed_nonneg _ w)
  · have hwork : ∀ sharedRail, (rowSetup tempC applyPl1 n sharedRail).fWorkHz m params w =
        (rowSetup tempC applyPl1 n true).fCeilingHz := fun _ => if_neg hcap
    rw [hwork, hwork]

theorem tCompileS_split_le (hm : m.Rises) (hc : 0 ≤ params.cEff) (hk : 0 ≤ params.kLeak)
    (hw : 0 ≤ w.wCompileGcycles) (tempC : K) (applyPl1 : Bool) (n : Nat) :
    (tableRow m params w tempC applyPl1 n false).tCompileS ≤
      (tableRow m params w tempC applyPl1 n true).tCompileS := by
  have hle := fWorkHz_split_le hm hc hk w tempC applyPl1 n
  have hpos : 0 < (rowSetup tempC applyPl1 n true).fWorkHz m params w := fWorkHz_pos _
  have hcycles : 0 ≤ w.wCompileGcycles * ghz := mul_nonneg hw ghz_pos.le
  show w.wCompileGcycles * ghz / ((rowSetup tempC applyPl1 n false).nWork * _) ≤
    w.wCompileGcycles * ghz / ((rowSetup tempC applyPl1 n true).nWork * _)
  rcases Nat.eq_zero_or_pos (rowSetup tempC applyPl1 n true).nWork with hnone | hsome
  · have hnone' : (rowSetup tempC applyPl1 n false).nWork = 0 := hnone
    rw [hnone, hnone', Nat.cast_zero, zero_mul, zero_mul]
  · have hcount : (0 : K) < (rowSetup tempC applyPl1 n true).nWork := Nat.cast_pos.mpr hsome
    exact div_le_div_of_nonneg_left hcycles (mul_pos hcount hpos)
      (mul_le_mul_of_nonneg_left hle hcount.le)

/-- Every row costs energy. -/
theorem energyJ_pos (hm : m.Rises) (hc : 0 ≤ params.cEff) (hk : 0 ≤ params.kLeak)
    (hsa : 0 ≤ params.pSaFloor) (hw : w.Positive) (tempC : K) (applyPl1 : Bool) {n : Nat}
    (hn : n ≤ nPhysCores) (sharedRail : Bool) :
    0 < (tableRow m params w tempC applyPl1 n sharedRail).energyJ := by
  have hf : 0 < (rowSetup tempC applyPl1 n sharedRail).fWorkHz m params w := fWorkHz_pos _
  obtain ⟨hphase1, hphase2⟩ := phases_nonneg (rowSetup tempC applyPl1 n sharedRail) w hf.le
  have hcount : (0 : K) < (rowSetup tempC applyPl1 n sharedRail).nWork :=
    Nat.cast_pos.mpr (nWork_le hn).1
  have htime : 0 < (rowSetup tempC applyPl1 n sharedRail).tCompileS w
      ((rowSetup tempC applyPl1 n sharedRail).fWorkHz m params w) :=
    div_pos (mul_pos hw.compile ghz_pos) (mul_pos hcount hf)
  exact add_pos_of_pos_of_nonneg
    (mul_pos (packagePower_pos hm hc hk hsa hphase1 _ _) htime)
    (mul_nonneg (packagePower_pos hm hc hk hsa hphase2 _ _).le (le_max_left _ _))

end Positive

/-! ## What the summary says -/

section Sound

variable [IsStrictOrderedRing K] {m : Libm K} {params : Params K} {w : Workload K} {tempC : K}
  {applyPl1 : Bool}

omit [IsStrictOrderedRing K] in
/-- The rows of either rail. -/
theorem rowsOf_eq (m : Libm K) (params : Params K) (w : Workload K) (tempC : K)
    (applyPl1 : Bool) :
    ((experimentB m params w tempC applyPl1).filter fun r => r.sharedRail) =
        (List.range (nPhysCores + 1)).map (tableRow m params w tempC applyPl1 · true) ∧
      ((experimentB m params w tempC applyPl1).filter fun r => !r.sharedRail) =
        (List.range (nPhysCores + 1)).map (tableRow m params w tempC applyPl1 · false) :=
  ⟨rfl, rfl⟩

/-- The deadline counts as far as a row of the rail can meet it. -/
def Counts (results : List (Row K)) (r : Row K) : Prop :=
  r.finishedInHorizon = true ∨
    ∀ r' ∈ results, r'.sharedRail = r.sharedRail → r'.finishedInHorizon = false

/-- A rail as the summary shows it: the row that costs least, whether both kinds of cores are in
it, and how far above it the others are. -/
structure Curve (results : List (Row K)) (sharedRail : Bool) (bestNBig : Nat) (bestEnergyJ : K)
    (interiorOptimum : Bool) (spreadFrac : K) : Prop where
  attained : ∃ r ∈ results, Counts results r ∧ r.sharedRail = sharedRail ∧ r.nBig = bestNBig ∧
    r.energyJ = bestEnergyJ
  least : ∀ r ∈ results, Counts results r → r.sharedRail = sharedRail → bestEnergyJ ≤ r.energyJ
  interior : interiorOptimum = true ↔ 0 < bestNBig ∧ bestNBig < nPhysCores
  dearest : ∃ r ∈ results, Counts results r ∧ r.sharedRail = sharedRail ∧
    r.energyJ = bestEnergyJ * (1 + spreadFrac)
  most : ∀ r ∈ results, Counts results r → r.sharedRail = sharedRail →
    r.energyJ ≤ bestEnergyJ * (1 + spreadFrac)
  spread_nonneg : 0 ≤ spreadFrac

/-- What the summary says is so. -/
structure Summary.Sound (results : List (Row K)) (s : Summary K) : Prop where
  shared : Curve results true s.bestNBigShared s.bestEnergyJShared s.interiorOptimumShared
    s.curveSpreadFracShared
  split : Curve results false s.bestNBigSplit s.bestEnergyJSplit s.interiorOptimumSplit
    s.curveSpreadFracSplit
  gap : s.energyGapJ = s.bestEnergyJShared - s.bestEnergyJSplit
  /-- each partition has its entry -/
  entries : s.railTaxByNBig.map (·.nBig) = List.range (nPhysCores + 1)
  /-- which compares its rows: split rails clock the compile no lower, and meet every deadline
  that the shared rail meets -/
  faster : ∀ e ∈ s.railTaxByNBig, ∃ rs rp, taxedRows results e.nBig = some (rs, rp) ∧
    e = railTax e.nBig rs rp ∧ rs.fWorkGhz ≤ rp.fWorkGhz ∧ rp.tCompileS ≤ rs.tCompileS ∧
    e.feasible = rs.finishedInHorizon

omit [Field K] [LinearOrder K] [IsStrictOrderedRing K] in
theorem mem_feasibleRows_iff {results rows : List (Row K)} {sharedRail : Bool}
    (hrows : ∀ r, r ∈ rows ↔ r ∈ results ∧ r.sharedRail = sharedRail) (r : Row K) :
    r ∈ feasibleRows rows ↔ r ∈ results ∧ Counts results r ∧ r.sharedRail = sharedRail := by
  constructor
  · intro h
    obtain ⟨hmem, hrail⟩ := (hrows r).mp (mem_feasibleRows h)
    refine ⟨hmem, (feasibleRows_cases h).imp_right fun hnone r' hr' hsame => ?_, hrail⟩
    exact hnone r' ((hrows r').mpr ⟨hr', hsame.trans hrail⟩)
  · rintro ⟨hmem, hfeas | hnone, hrail⟩
    · exact mem_feasibleRows_of_feasible ((hrows r).mpr ⟨hmem, hrail⟩) hfeas
    · rw [feasibleRows_of_none]
      · exact (hrows r).mpr ⟨hmem, hrail⟩
      · intro r' hr'
        obtain ⟨hmem', hrail'⟩ := (hrows r').mp hr'
        exact hnone r' hmem' (hrail'.trans hrail.symm)

/-- The summary of rows that all cost energy. -/
theorem exists_curve {results rows : List (Row K)} {sharedRail : Bool}
    (hrows : ∀ r, r ∈ rows ↔ r ∈ results ∧ r.sharedRail = sharedRail) (hne : rows ≠ [])
    (hpos : ∀ r ∈ rows, 0 < r.energyJ) :
    ∃ b x, bestOf rows = some b ∧ spread rows = some x ∧
      Curve results sharedRail b.nBig b.energyJ
        (decide (0 < b.nBig) && decide (b.nBig < nPhysCores)) x := by
  have hcount := feasibleRows_ne_nil hne
  obtain ⟨most, hmost⟩ := Option.ne_none_iff_exists'.mp
    (mt List.argmax_eq_none.mp hcount : (feasibleRows rows).argmax (fun r => r.energyJ) ≠ none)
  obtain ⟨b, hb⟩ := Option.ne_none_iff_exists'.mp
    (mt List.argmin_eq_none.mp hcount : bestOf rows ≠ none)
  have hmem := bestOf_mem hb
  have hpositive := hpos b (mem_feasibleRows hmem)
  have hmem_iff := mem_feasibleRows_iff hrows
  have hscale : b.energyJ * (1 + (most.energyJ - b.energyJ) / b.energyJ) = most.energyJ := by
    field_simp
    ring
  have hspread : spread rows = some ((most.energyJ - b.energyJ) / b.energyJ) := by
    unfold spread
    rw [hmost, show (feasibleRows rows).argmin (fun r => r.energyJ) = some b from hb]
    exact if_neg hpositive.ne'
  refine ⟨b, _, hb, hspread, ?_, fun r hr hcounts hrail => ?_, ?_, ?_,
    fun r hr hcounts hrail => ?_, ?_⟩
  · obtain ⟨hr, hcounts, hrail⟩ := (hmem_iff b).mp hmem
    exact ⟨b, hr, hcounts, hrail, rfl, rfl⟩
  · exact bestOf_le hb ((hmem_iff r).mpr ⟨hr, hcounts, hrail⟩)
  · simp
  · obtain ⟨hr, hcounts, hrail⟩ := (hmem_iff most).mp (List.argmax_mem hmost)
    exact ⟨most, hr, hcounts, hrail, hscale.symm⟩
  · rw [hscale]
    exact List.le_of_mem_argmax ((hmem_iff r).mpr ⟨hr, hcounts, hrail⟩) hmost
  · exact div_nonneg (sub_nonneg.mpr (List.le_of_mem_argmax hmem hmost)) hpositive.le

omit [IsStrictOrderedRing K] in
theorem mem_railRows_iff (m : Libm K) (params : Params K) (w : Workload K) (tempC : K)
    (applyPl1 sharedRail : Bool) (r : Row K) :
    r ∈ (List.range (nPhysCores + 1)).map (tableRow m params w tempC applyPl1 · sharedRail) ↔
      r ∈ experimentB m params w tempC applyPl1 ∧ r.sharedRail = sharedRail := by
  obtain ⟨hshared, hsplit⟩ := rowsOf_eq m params w tempC applyPl1
  cases sharedRail with
  | true => rw [← hshared, List.mem_filter]
  | false => rw [← hsplit, List.mem_filter, Bool.not_eq_true']

theorem exists_railCurve (hm : m.Rises) (hc : 0 ≤ params.cEff) (hk : 0 ≤ params.kLeak)
    (hsa : 0 ≤ params.pSaFloor) (hw : w.Positive) (tempC : K) (applyPl1 sharedRail : Bool) :
    ∃ b x,
      bestOf ((List.range (nPhysCores + 1)).map
        (tableRow m params w tempC applyPl1 · sharedRail)) = some b ∧
      spread ((List.range (nPhysCores + 1)).map
        (tableRow m params w tempC applyPl1 · sharedRail)) = some x ∧
      Curve (experimentB m params w tempC applyPl1) sharedRail b.nBig b.energyJ
        (decide (0 < b.nBig) && decide (b.nBig < nPhysCores)) x := by
  refine exists_curve (mem_railRows_iff m params w tempC applyPl1 sharedRail) (by simp)
    fun r hr => ?_
  obtain ⟨n, hn, rfl⟩ := List.mem_map.mp hr
  exact energyJ_pos hm hc hk hsa hw tempC applyPl1
    (Nat.lt_succ_iff.mp (List.mem_range.mp hn)) sharedRail

/-- Where the clock does not depend on the rail, the optimum on split rails costs no more. -/
theorem bestOf_split_le (hm : m.Rises) (hc : 0 ≤ params.cEff) (hk : 0 ≤ params.kLeak)
    (hw : w.Positive)
    (hfreq : ∀ n, (rowSetup tempC applyPl1 n true).fWorkHz m params w =
      (rowSetup tempC applyPl1 n false).fWorkHz m params w)
    {bs bp : Row K}
    (hbs : bestOf ((List.range (nPhysCores + 1)).map
      (tableRow m params w tempC applyPl1 · true)) = some bs)
    (hbp : bestOf ((List.range (nPhysCores + 1)).map
      (tableRow m params w tempC applyPl1 · false)) = some bp) :
    bp.energyJ ≤ bs.energyJ := by
  refine bestOf_mono (fun n hn => ?_) (fun n hn => ?_) hbp hbs
  · have hsame := ((sameButRail_iff n tempC applyPl1).mpr (hfreq n)).tCompileS
    exact congrArg (fun t => decide (t ≤ w.horizonS)) hsame.symm
  · exact sub_nonneg.mp (railTaxJ_nonneg hm hc hk hw.compile.le tempC applyPl1 (hfreq n))

theorem railTax_faster (hm : m.Rises) (hc : 0 ≤ params.cEff) (hk : 0 ≤ params.kLeak)
    (hw : w.Positive) {n : Nat} (hn : n ≤ nPhysCores) :
    ∃ rs rp, taxedRows (experimentB m params w tempC applyPl1) n = some (rs, rp) ∧
      railTax n (tableRow m params w tempC applyPl1 n true)
        (tableRow m params w tempC applyPl1 n false) = railTax n rs rp ∧
      rs.fWorkGhz ≤ rp.fWorkGhz ∧ rp.tCompileS ≤ rs.tCompileS ∧
      (railTax n (tableRow m params w tempC applyPl1 n true)
        (tableRow m params w tempC applyPl1 n false)).feasible = rs.finishedInHorizon := by
  have htime := tCompileS_split_le hm hc hk hw.compile.le tempC applyPl1 n
  refine ⟨_, _, taxedRows_eq hn m params w tempC applyPl1, rfl, ?_, htime, ?_⟩
  · exact div_le_div_of_nonneg_right (fWorkHz_split_le hm hc hk w tempC applyPl1 n) ghz_pos.le
  · unfold railTax
    simp only
    cases hfeas : (tableRow m params w tempC applyPl1 n true).finishedInHorizon with
    | false => rfl
    | true =>
      have hsplit : (tableRow m params w tempC applyPl1 n false).finishedInHorizon = true :=
        decide_eq_true (htime.trans (of_decide_eq_true hfeas))
      rw [hsplit]
      rfl

/-- **The shared rail is never the better one, as far as the sweep can tell.** With or without
PL1 the sweep has a summary, its optima are rows of the curves that cost least, and at every
partition split rails compile no slower and meet every deadline that the shared rail meets.
Without PL1 no entry of the table has a negative tax, and the optimum on split rails costs no
more. -/
theorem sweep_summary (m : Libm K) (hm : m.Rises) (params : Params K) (hc : 0 ≤ params.cEff)
    (hk : 0 ≤ params.kLeak) (hsa : 0 ≤ params.pSaFloor) (w : Workload K) (hw : w.Positive)
    (tempC : K) (applyPl1 : Bool) :
    ∃ s, summary (experimentB m params w tempC applyPl1) applyPl1 = some s ∧
      s.Sound (experimentB m params w tempC applyPl1) ∧
      (applyPl1 = false → 0 ≤ s.energyGapJ ∧ ∀ e ∈ s.railTaxByNBig, 0 ≤ e.railTaxJ) := by
  obtain ⟨hshared, hsplit⟩ := rowsOf_eq m params w tempC applyPl1
  obtain ⟨bs, xs, hbs, hxs, hcurve⟩ := exists_railCurve hm hc hk hsa hw tempC applyPl1 true
  obtain ⟨bp, xp, hbp, hxp, hcurveSplit⟩ := exists_railCurve hm hc hk hsa hw tempC applyPl1 false
  have hfreq : applyPl1 = false → ∀ n, (rowSetup tempC applyPl1 n true).fWorkHz m params w =
      (rowSetup tempC applyPl1 n false).fWorkHz m params w := fun hoff n =>
    fWorkHz_uncapped (Or.inl hoff) tempC
  unfold summary
  simp only [hshared, hsplit, hbs, hbp, hxs, hxp, interior, railTaxByNBig_eq]
  refine ⟨_, rfl, ⟨hcurve, hcurveSplit, rfl, ?_, fun e he => ?_⟩, fun hoff => ⟨?_, fun e he => ?_⟩⟩
  · rw [List.map_map]
    rfl
  · obtain ⟨n, hn, rfl⟩ := List.mem_map.mp he
    exact railTax_faster hm hc hk hw (Nat.lt_succ_iff.mp (List.mem_range.mp hn))
  · exact sub_nonneg.mpr (bestOf_split_le hm hc hk hw (hfreq hoff) hbs hbp)
  · obtain ⟨n, -, rfl⟩ := List.mem_map.mp he
    exact railTaxJ_nonneg hm hc hk hw.compile.le tempC applyPl1 (hfreq hoff n)

end Sound

/-- The default workload with the constants before a calibration. -/
theorem sweep_summary_default :
    ∃ s, summary (experimentB realLibm priorParams defaultWorkload 60 true) true = some s ∧
      s.Sound (experimentB realLibm priorParams defaultWorkload 60 true) := by
  obtain ⟨s, hs, hsound, -⟩ := sweep_summary realLibm realLibm_rises priorParams
    (by norm_num [priorParams]) (by norm_num [priorParams]) (by norm_num [priorParams])
    defaultWorkload defaultWorkload_positive 60 true
  exact ⟨s, hs, hsound⟩

end Rail

end FakeBigLittle
