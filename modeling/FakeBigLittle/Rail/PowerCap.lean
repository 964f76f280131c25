import FakeBigLittle.Rail.Power
import FakeBigLittle.Rail.Sweep

/-!
# Under the power cap

The power of a package rises strictly with the common frequency of some of its cores, so the
bisection of `freq_under_power_cap` ends just below the frequency where the cap is passed.
-/

namespace FakeBigLittle

namespace Rail

variable {K : Type} [Field K] [LinearOrder K] [IsStrictOrderedRing K]

/-! ## Faster cores -/

/-- The same core at a frequency that is no lower. -/
structure Faster (core core' : Core K) : Prop where
  activity : core.2 = core'.2
  nonneg : 0 ≤ core.1
  freq : core.1 ≤ core'.1

omit [IsStrictOrderedRing K] in
theorem Faster.isActive {core core' : Core K} (h : Faster core core') :
    isActive core = isActive core' := by
  unfold Rail.isActive
  rw [h.activity]

omit [IsStrictOrderedRing K] in
theorem faster_filter {cores cores' : List (Core K)} (h : List.Forall₂ Faster cores cores') :
    List.Forall₂ Faster (cores.filter isActive) (cores'.filter isActive) :=
  List.rel_filter (fun _ _ hcore => by simp only [hcore.isActive]) h

omit [IsStrictOrderedRing K] in
theorem maxFreq_mono {cores cores' : List (Core K)} (h : List.Forall₂ Faster cores cores')
    (d : K) : maxFreq d cores ≤ maxFreq d cores' := by
  have hfold : ∀ {cores cores' : List (Core K)}, List.Forall₂ Faster cores cores' →
      ∀ {f f' : K}, f ≤ f' →
        cores.foldl (fun f c => max f c.1) f ≤ cores'.foldl (fun f c => max f c.1) f' := by
    intro cores cores' h
    induction h with
    | nil => exact fun hle => hle
    | cons hcore _ ih => exact fun hle => ih (max_le_max hle hcore.freq)
  cases h with
  | nil => exact le_refl _
  | cons hcore hrest => exact hfold hrest hcore.freq

theorem ghz_pos : (0 : K) < ghz := by
  unfold ghz
  norm_num

theorem vCore_pos (sharedRail : Bool) {vRail : K} (hv : 0 < vRail) (core : Core K) :
    0 < vCore sharedRail vRail core := by
  unfold vCore
  split_ifs
  · exact hv
  · exact vOfF_pos _
  · exact vOfF_pos _

theorem vCore_mono {sharedRail : Bool} {vRail vRail' : K} (hv : vRail ≤ vRail')
    {core core' : Core K} (h : Faster core core') :
    vCore sharedRail vRail core ≤ vCore sharedRail vRail' core' := by
  unfold vCore
  rw [h.isActive]
  split_ifs
  · exact hv
  · exact vOfF_mono h.freq
  · exact le_refl _

section Terms

variable {m : Libm K} {params : Params K} {sharedRail : Bool} {vRail vRail' tempC : K}
  {cores cores' : List (Core K)}

theorem dynOf_mono (sharedRail : Bool) (hc : 0 ≤ params.cEff) (hpos : 0 < vRail)
    (hv : vRail ≤ vRail') (h : List.Forall₂ Faster cores cores') :
    dynOf params sharedRail vRail cores ≤ dynOf params sharedRail vRail' cores' := by
  unfold dynOf
  apply List.Forall₂.sum_le_sum
  rw [List.forall₂_map_left_iff, List.forall₂_map_right_iff]
  refine h.imp fun core core' hcore => ?_
  rw [← hcore.isActive, ← hcore.activity]
  split_ifs with hactive
  · have hsquare := pow_le_pow_left₀ (vCore_pos sharedRail hpos core).le (vCore_mono hv hcore) 2
    have hactivity : 0 ≤ core.2 * params.cEff := mul_nonneg (activity_pos hactive).le hc
    have hclock : core.1 / ghz ≤ core'.1 / ghz :=
      div_le_div_of_nonneg_right hcore.freq ghz_pos.le
    exact mul_le_mul (mul_le_mul_of_nonneg_left hsquare hactivity) hclock
      (div_nonneg hcore.nonneg ghz_pos.le) (mul_nonneg hactivity (sq_nonneg _))
  · exact le_refl _

theorem leakOf_mono (sharedRail : Bool) (tempC : K) (hm : m.Rises) (hk : 0 ≤ params.kLeak)
    (hpos : 0 < vRail) (hv : vRail ≤ vRail') (h : List.Forall₂ Faster cores cores') :
    leakOf m params sharedRail vRail tempC cores ≤
      leakOf m params sharedRail vRail' tempC cores' := by
  unfold leakOf
  apply List.Forall₂.sum_le_sum
  rw [List.forall₂_map_left_iff, List.forall₂_map_right_iff]
  refine h.imp fun core core' hcore => ?_
  rw [← hcore.isActive]
  exact coreLeakageW_mono hm hk (vCore_pos sharedRail hpos core) (vCore_mono hv hcore) _ _

theorem ringPower_mono {f f' : K} (h : f ≤ f') : ringPower f ≤ ringPower f' := by
  have hring : ringHz f ≤ ringHz f' := min_le_min_right _ (max_le_max_right _ h)
  have hmin : (0 : K) ≤ ringHz f := by
    unfold ringHz
    refine le_min (le_max_of_le_right ?_) ?_
    · unfold fRingMinHz
      norm_num
    · unfold fRingMaxHz
      norm_num
  have hcost : (0 : K) ≤ cRingWPerV2Ghz := by
    unfold cRingWPerV2Ghz
    norm_num
  have hsquare := pow_le_pow_left₀ (vOfF_pos (ringHz f)).le (vOfF_mono hring) 2
  unfold ringPower
  exact mul_le_mul (mul_le_mul_of_nonneg_left hsquare hcost)
    (div_le_div_of_nonneg_right hring ghz_pos.le) (div_nonneg hmin ghz_pos.le)
    (mul_nonneg hcost (sq_nonneg _))

omit [IsStrictOrderedRing K] in
theorem aggActiveGhz_append (cores cores' : List (Core K)) :
    aggActiveGhz (cores ++ cores') = aggActiveGhz cores + aggActiveGhz cores' := by
  unfold aggActiveGhz
  rw [List.filter_append, List.map_append, List.sum_append]

omit [IsStrictOrderedRing K] in
/-- The traffic of cores at a common frequency. -/
theorem aggActiveGhz_replicate (n : Nat) {activity : K} (ha : activityC6Eps < activity) (f : K) :
    aggActiveGhz (List.replicate n (f, activity)) = n * (activity * f / ghz) := by
  have hactive : isActive (f, activity) = true := decide_eq_true ha
  unfold aggActiveGhz
  rw [List.filter_replicate_of_pos hactive, List.map_replicate, List.sum_replicate, nsmul_eq_mul]

end Terms

/-! ## Strictly more power -/

section Strict

variable {m : Libm K} {params : Params K} {sharedRail : Bool} {tempC activity capW : K}
  {others : List (Core K)} {n : Nat}

omit [IsStrictOrderedRing K] in
/-- The power of a package with an active core. -/
theorem packagePower_total {cores : List (Core K)} (h : cores.filter isActive ≠ []) :
    (packagePower m params cores sharedRail tempC).total =
      dynOf params sharedRail (vOfF (maxFreq fMinHz (cores.filter isActive))) cores +
        leakOf m params sharedRail (vOfF (maxFreq fMinHz (cores.filter isActive))) tempC cores +
        (params.pSaFloor + ringPower (maxFreq fMinHz (cores.filter isActive)) +
          kUncoreTrafficWPerGhz * aggActiveGhz cores) := by
  unfold packagePower
  rw [if_neg h]

omit [IsStrictOrderedRing K] in
theorem faster_replicate (n : Nat) (activity : K) {f f' : K} (hf : 0 ≤ f) (hle : f ≤ f')
    (hothers : ∀ core ∈ others, 0 ≤ core.1) :
    List.Forall₂ Faster (List.replicate n (f, activity) ++ others)
      (List.replicate n (f', activity) ++ others) := by
  apply List.rel_append
  · induction n with
    | zero => exact .nil
    | succ n ih => exact .cons ⟨rfl, hf, hle⟩ ih
  · exact List.forall₂_same.mpr fun core hcore => ⟨rfl, hothers core hcore, le_refl _⟩

theorem pAt_strictMono (hm : m.Rises) (hc : 0 ≤ params.cEff) (hk : 0 ≤ params.kLeak)
    (hn : 0 < n) (ha : activityC6Eps < activity) (hothers : ∀ core ∈ others, 0 ≤ core.1)
    {f f' : K} (hf : 0 ≤ f) (hlt : f < f') :
    pAt m params n activity sharedRail tempC others f <
      pAt m params n activity sharedRail tempC others f' := by
  have hactive : ∀ g : K,
      (List.replicate n (g, activity) ++ others).filter isActive ≠ [] := by
    intro g hnone
    have hmem : (g, activity) ∈ List.replicate n (g, activity) ++ others :=
      List.mem_append_left _ (List.mem_replicate.mpr ⟨hn.ne', rfl⟩)
    exact List.filter_eq_nil_iff.mp hnone _ hmem (decide_eq_true ha)
  have hfaster := faster_replicate n activity hf hlt.le hothers
  have hmax := maxFreq_mono (faster_filter hfaster) fMinHz
  have hrail := vOfF_mono hmax
  have hdyn := dynOf_mono sharedRail hc (vOfF_pos _) hrail hfaster
  have hleak := leakOf_mono sharedRail tempC hm hk (vOfF_pos _) hrail hfaster
  have hring := ringPower_mono hmax
  have htraffic : kUncoreTrafficWPerGhz * aggActiveGhz (List.replicate n (f, activity) ++ others) <
      kUncoreTrafficWPerGhz * aggActiveGhz (List.replicate n (f', activity) ++ others) := by
    have hcost : (0 : K) < kUncoreTrafficWPerGhz := by
      unfold kUncoreTrafficWPerGhz
      norm_num
    have hactivity : isActive (f, activity) = true := decide_eq_true ha
    have hpos : 0 < activity := activity_pos hactivity
    have hclock : activity * f / ghz < activity * f' / ghz :=
      div_lt_div_of_pos_right (mul_lt_mul_of_pos_left hlt hpos) ghz_pos
    have hcount : (0 : K) < n := Nat.cast_pos.mpr hn
    rw [aggActiveGhz_append, aggActiveGhz_append, aggActiveGhz_replicate n ha,
      aggActiveGhz_replicate n ha]
    exact mul_lt_mul_of_pos_left (add_lt_add_left (mul_lt_mul_of_pos_left hclock hcount) _) hcost
  unfold pAt
  rw [packagePower_total (hactive f), packagePower_total (hactive f')]
  linarith

end Strict

/-! ## What the bisection returns -/

section Cap

variable {m : Libm K} {params : Params K} {sharedRail : Bool}
  {tempC activity ceiling capW : K} {others : List (Core K)} {n : Nat}

omit [IsStrictOrderedRing K] in
/-- The two points that the bisection starts from. -/
theorem cap_brackets {power : K → K} (hle : fMinHz ≤ ceiling) (hlow : ¬ power fMinHz ≥ capW)
    (hhigh : ¬ power ceiling ≤ capW) :
    Bisect.Brackets (fun f => decide (power f > capW)) (fMinHz, ceiling) :=
  ⟨decide_eq_false (not_lt.mpr (not_le.mp hlow).le), decide_eq_true (not_le.mp hhigh), hle⟩

theorem freqUnderPowerCap_mem (hle : fMinHz ≤ ceiling) :
    fMinHz ≤ freqUnderPowerCap m params n activity ceiling capW sharedRail tempC others ∧
      freqUnderPowerCap m params n activity ceiling capW sharedRail tempC others ≤ ceiling := by
  unfold freqUnderPowerCap
  simp only
  split_ifs with hlow hhigh
  · exact ⟨le_refl _, hle⟩
  · exact ⟨hle, le_refl _⟩
  · have hb := cap_brackets hle hlow hhigh
    have hwithin := Bisect.search_within (fun f => decide
      (pAt m params n activity sharedRail tempC others f > capW)) 100000 60 hb.le
    have hends := Bisect.search_brackets 100000 60 hb
    exact ⟨hwithin.1, hends.le.trans hwithin.2⟩

theorem freqUnderPowerCap_le (hle : fMinHz ≤ ceiling)
    (hfits : pAt m params n activity sharedRail tempC others fMinHz < capW) :
    pAt m params n activity sharedRail tempC others
      (freqUnderPowerCap m params n activity ceiling capW sharedRail tempC others) ≤ capW := by
  unfold freqUnderPowerCap
  simp only
  split_ifs with hlow hhigh
  · exact hfits.le
  · exact hhigh
  · have hends := Bisect.search_brackets 100000 60 (cap_brackets hle hlow hhigh)
    exact not_lt.mp (of_decide_eq_false hends.lower)

/-- No frequency that is higher by the tolerance fits. -/
theorem freqUnderPowerCap_highest {f : K} (hle : fMinHz ≤ ceiling) (hmax : ceiling ≤ 4000000000)
    (hmono : ∀ f f' : K, 0 ≤ f → f < f' → pAt m params n activity sharedRail tempC others f <
      pAt m params n activity sharedRail tempC others f')
    (hf : freqUnderPowerCap m params n activity ceiling capW sharedRail tempC others + 100000 ≤ f)
    (hne : freqUnderPowerCap m params n activity ceiling capW sharedRail tempC others ≠ ceiling) :
    capW < pAt m params n activity sharedRail tempC others f := by
  have hmin : (0 : K) ≤ fMinHz := by
    unfold fMinHz
    norm_num
  unfold freqUnderPowerCap at hf hne
  simp only at hf hne
  split_ifs at hf hne with hlow hhigh
  · exact lt_of_le_of_lt hlow (hmono _ _ hmin (by linarith))
  · exact absurd rfl hne
  · have hb := cap_brackets hle hlow hhigh
    have hends := Bisect.search_brackets 100000 60 hb
    have hwithin := Bisect.search_within (fun f => decide
      (pAt m params n activity sharedRail tempC others f > capW)) 100000 60 hb.le
    have hclose : (ceiling - fMinHz) / 2 ^ 60 < (100000 : K) := by
      have hpow : (0 : K) < 2 ^ 60 := by positivity
      rw [div_lt_iff₀ hpow]
      unfold fMinHz
      norm_num
      linarith
    have hwidth := Bisect.search_width (fun f => decide
      (pAt m params n activity sharedRail tempC others f > capW)) (b := (fMinHz, ceiling)) hclose
    refine (of_decide_eq_true hends.upper).trans (hmono _ _ ?_ (by linarith))
    exact hmin.trans (hwithin.1.trans hends.le)

end Cap

/-! ## The rows of the sweep -/

section Rows

variable {s : Setup K} {w : Workload K} {tempC : K} {applyPl1 : Bool}

theorem fMinHz_pos : (0 : K) < fMinHz := by
  unfold fMinHz
  norm_num

theorem turboLimitHz_mem {n : Nat} (hn : 0 < n) :
    fMinHz ≤ (turboLimitHz n : K) ∧ (turboLimitHz n : K) ≤ 4000000000 := by
  unfold turboLimitHz turboBinsHz fMinHz
  rw [if_neg hn.ne']
  split <;> norm_num

theorem fCeilingHz_mem (s : Setup K) : fMinHz ≤ s.fCeilingHz ∧ s.fCeilingHz ≤ 4000000000 := by
  unfold Setup.fCeilingHz
  split_ifs
  · unfold fMinHz fLittleHz
    norm_num
  · exact turboLimitHz_mem (by omega)

omit [Field K] [LinearOrder K] [IsStrictOrderedRing K] in
theorem nBig_le_of_mem (h : s ∈ setups tempC applyPl1) :
    s.nBig ≤ nPhysCores ∧ s.tempC = tempC ∧ s.applyPl1 = applyPl1 := by
  unfold setups at h
  simp only [List.mem_flatMap, List.mem_range, List.mem_map] at h
  obtain ⟨n, hn, sharedRail, -, rfl⟩ := h
  exact ⟨Nat.lt_succ_iff.mp hn, rfl, rfl⟩

omit [Field K] [LinearOrder K] [IsStrictOrderedRing K] in
theorem nWork_le (h : s.nBig ≤ nPhysCores) : 0 < s.nWork ∧ s.nWork ≤ nPhysCores := by
  unfold Setup.nWork Setup.nLittle nPhysCores
  unfold nPhysCores at h
  split_ifs <;> omega

/-- The cores from `n` on, seen from `n`. -/
theorem map_range_split {α : Type} {n k : Nat} (h : n ≤ k) (b : Nat) (x y z : α) :
    ((List.range k).map fun i => if i < n then x else if i < n + b then y else z) =
      List.replicate n x ++ (List.range (k - n)).map fun i => if i < b then y else z := by
  obtain ⟨d, rfl⟩ := Nat.exists_eq_add_of_le h
  rw [List.range_add, List.map_append, Nat.add_sub_cancel_left, List.map_map]
  congr 1
  · rw [List.eq_replicate_iff]
    refine ⟨by rw [List.length_map, List.length_range], fun c hc => ?_⟩
    obtain ⟨i, hi, rfl⟩ := List.mem_map.mp hc
    exact if_pos (List.mem_range.mp hi)
  · apply List.map_congr_left
    intro i _
    simp

omit [IsStrictOrderedRing K] in
/-- In phase 1 the cores are those that the cap was computed for. -/
theorem phase1_eq (h : s.nBig ≤ nPhysCores) (f : K) :
    s.phase1 w f = List.replicate s.nWork (f, 1) ++ s.bgStatesFixed w :=
  map_range_split (nWork_le h).2 _ _ _ _

theorem row_under_cap {m : Libm K} {params : Params K} {r : Row K}
    (hr : r ∈ experimentB m params w tempC true) (hbig : 0 < r.nBig) :
    r.pPhase1W ≤ pl1W ∨ r.fWorkGhz = fMinHz / ghz := by
  unfold experimentB at hr
  obtain ⟨s, hs, rfl⟩ := List.mem_map.mp hr
  obtain ⟨hle, -, hpl1⟩ := nBig_le_of_mem hs
  have hwork : s.fWorkHz m params w = freqUnderPowerCap m params s.nWork 1 s.fCeilingHz pl1W
      s.sharedRail s.tempC (s.bgStatesFixed w) := by
    unfold Setup.fWorkHz
    rw [hpl1, if_pos (by simpa [experimentRow] using hbig)]
  by_cases hfits : pAt m params s.nWork 1 s.sharedRail s.tempC (s.bgStatesFixed w) fMinHz < pl1W
  · have hcap := freqUnderPowerCap_le (fCeilingHz_mem s).1 hfits
    left
    unfold pAt at hcap
    rwa [← hwork, ← phase1_eq hle] at hcap
  · right
    have hmin : s.fWorkHz m params w = fMinHz := by
      rw [hwork]
      unfold freqUnderPowerCap
      exact if_pos (not_lt.mp hfits)
    unfold experimentRow
    simp only [hmin]

end Rows

/-- **The cap gives the highest frequency that fits.** The frequency is within its bounds and
fits if the lowest one does; one that is 0.1 MHz higher does not fit. Phase 1 of a capped row
stays under PL1 or runs at the lowest frequency. -/
theorem highest_under_cap (params : Params ℝ) (hc : 0 ≤ params.cEff) (hk : 0 ≤ params.kLeak)
    (n : Nat) (hn : 0 < n) (activity : ℝ) (ha : activityC6Eps < activity)
    (others : List (Core ℝ)) (hothers : ∀ core ∈ others, 0 ≤ core.1) (ceiling : ℝ)
    (hmin : fMinHz ≤ ceiling) (hmax : ceiling ≤ 4000000000) (capW tempC : ℝ)
    (sharedRail : Bool) :
    let power := pAt realLibm params n activity sharedRail tempC others
    let f := freqUnderPowerCap realLibm params n activity ceiling capW sharedRail tempC others
    (fMinHz ≤ f ∧ f ≤ ceiling) ∧ (power fMinHz < capW → power f ≤ capW) ∧
      (f ≠ ceiling → ∀ g, f + 100000 ≤ g → g ≤ ceiling → capW < power g) ∧
      ∀ w : Workload ℝ, ∀ r ∈ experimentB realLibm params w tempC true, 0 < r.nBig →
        r.pPhase1W ≤ pl1W ∨ r.fWorkGhz = fMinHz / ghz := by
  intro power f
  refine ⟨freqUnderPowerCap_mem hmin, freqUnderPowerCap_le hmin, fun hne g hg _ => ?_,
    fun w r hr hbig => row_under_cap hr hbig⟩
  exact freqUnderPowerCap_highest hmin hmax
    (fun _ _ => pAt_strictMono realLibm_rises hc hk hn ha hothers) hg hne

/-- Two cores next to a background core. -/
theorem highest_under_cap_two :
    freqUnderPowerCap realLibm priorParams 2 1 4000000000 pl1W true 60 [(800000000, 0.5)] ≤
      4000000000 :=
  (highest_under_cap priorParams (by norm_num [priorParams]) (by norm_num [priorParams]) 2
    (by decide) 1 (by norm_num [activityC6Eps]) [(800000000, 0.5)] (by norm_num) 4000000000
    (by norm_num [fMinHz]) (le_refl _) pl1W 60 true).1.2

end Rail

end FakeBigLittle
