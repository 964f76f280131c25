import FakeBigLittle.Rail.Charged
import Mathlib.Analysis.Complex.ExponentialBounds
import Mathlib.Tactic.IntervalCases

/-!
# The pure rail tax

The entries of `rail_tax_by_n_big` subtract the split-rail row from the shared one. The two
rows are alike but for the rail only if the power cap cuts both to one frequency.
-/

namespace FakeBigLittle

namespace Rail

variable {K : Type} [Field K] [LinearOrder K] [IsStrictOrderedRing K]

/-! ## The step of the grid that the cap picks -/

/-- The frequencies that the bisection can return, from the lowest one to the ceiling. -/
def capGrid (ceiling : K) (i : Nat) : K := Bisect.grid (fMinHz, ceiling) 16 i

section Grid

variable {m : Libm K} {params : Params K} {sharedRail : Bool}
  {tempC activity ceiling : K} {others : List (Core K)} {n : Nat}

theorem capGrid_strictMono (hlt : fMinHz < ceiling) : StrictMono (capGrid ceiling) :=
  Bisect.grid_strictMono (b := (fMinHz, ceiling)) hlt 16

omit [LinearOrder K] [IsStrictOrderedRing K] in
theorem capGrid_zero (ceiling : K) : capGrid ceiling 0 = fMinHz := Bisect.grid_zero ..

theorem capGrid_last (ceiling : K) : capGrid ceiling (2 ^ 16) = ceiling := Bisect.grid_last ..

theorem fMinHz_le_capGrid (hlt : fMinHz < ceiling) (i : Nat) : fMinHz ≤ capGrid ceiling i := by
  rw [← capGrid_zero ceiling]
  exact (capGrid_strictMono hlt).monotone (Nat.zero_le i)

/-- The frequency under the cap is the last point of the grid that fits. -/
theorem freqUnderPowerCap_grid (capW : K) (hlow : 3676800000 ≤ ceiling)
    (hhigh : ceiling ≤ 4000000000)
    (hmono : ∀ f f' : K, 0 ≤ f → f < f' → pAt m params n activity sharedRail tempC others f <
      pAt m params n activity sharedRail tempC others f') :
    ∃ j ≤ 2 ^ 16,
      freqUnderPowerCap m params n activity ceiling capW sharedRail tempC others =
        capGrid ceiling j ∧
      ∀ i, 1 ≤ i → i ≤ 2 ^ 16 →
        (pAt m params n activity sharedRail tempC others (capGrid ceiling i) ≤ capW ↔ i ≤ j) := by
  have hlt : fMinHz < ceiling := by
    unfold fMinHz
    linarith
  have hle : ∀ f f' : K, fMinHz ≤ f → f ≤ f' →
      pAt m params n activity sharedRail tempC others f ≤
        pAt m params n activity sharedRail tempC others f' := by
    intro f f' hf hff'
    rcases hff'.lt_or_eq with hlt | rfl
    · exact (hmono f f' (fMinHz_pos.le.trans hf) hlt).le
    · exact le_refl _
  unfold freqUnderPowerCap
  simp only
  split_ifs with hmin hmax
  · refine ⟨0, Nat.zero_le _, (capGrid_zero ceiling).symm, fun i hi _ => ?_⟩
    have hstep := capGrid_strictMono hlt (show 0 < i from hi)
    rw [capGrid_zero] at hstep
    have hover := hmin.trans_lt (hmono _ _ fMinHz_pos.le hstep)
    exact iff_of_false (not_le.mpr hover) (by omega)
  · refine ⟨2 ^ 16, le_refl _, (capGrid_last ceiling).symm, fun i _ hi => ?_⟩
    have hend := (capGrid_strictMono hlt).monotone hi
    rw [capGrid_last] at hend
    exact iff_of_true ((hle _ _ (fMinHz_le_capGrid hlt i) hend).trans hmax) hi
  · have hclose : (ceiling - fMinHz) / 2 ^ (15 + 1) < (100000 : K) := by
      unfold fMinHz
      norm_num
      linarith
    have hwide : (100000 : K) ≤ (ceiling - fMinHz) / 2 ^ 15 := by
      unfold fMinHz
      norm_num
      linarith
    obtain ⟨j, hj, hgrid⟩ := Bisect.search_highest
      (cap_brackets hlt.le hmin hmax)
      (fun x y hx hxy hover => decide_eq_true
        ((of_decide_eq_true hover).trans_le (hle x y hx hxy)))
      (show 15 < 60 by decide) hclose hwide
    have hiff : ∀ i, pAt m params n activity sharedRail tempC others (capGrid ceiling i) ≤ capW ↔
        i ≤ j := by
      intro i
      rw [← hgrid i, decide_eq_false_iff_not, not_lt]
      rfl
    refine ⟨j, ?_, hj, fun i _ _ => hiff i⟩
    -- The ceiling, the last point, does not fit.
    by_contra hgt
    have hlast := (hiff (2 ^ 16)).mpr (by omega)
    rw [capGrid_last] at hlast
    exact hmax hlast

end Grid

/-! ## Two rails under one cap -/

/-- The setup of a row of the table. -/
abbrev rowSetup (tempC : K) (applyPl1 : Bool) (n : Nat) (sharedRail : Bool) : Setup K :=
  ⟨n, sharedRail, tempC, applyPl1⟩

/-- Some frequency of the grid fits under the cap on split rails only. -/
def SplitFitsAlone (m : Libm K) (params : Params K) (w : Workload K) (s : Setup K) : Prop :=
  ∃ i, 1 ≤ i ∧ i ≤ 2 ^ 16 ∧
    pAt m params s.nWork 1 false s.tempC (s.bgStatesFixed w) (capGrid s.fCeilingHz i) ≤ pl1W ∧
    pl1W < pAt m params s.nWork 1 true s.tempC (s.bgStatesFixed w) (capGrid s.fCeilingHz i)

section Rows

variable {m : Libm K} {params : Params K} {w : Workload K}

theorem bgStatesFixed_nonneg (s : Setup K) (w : Workload K) :
    ∀ core ∈ s.bgStatesFixed w, 0 ≤ core.1 := by
  intro core hcore
  obtain ⟨i, -, rfl⟩ := List.mem_map.mp hcore
  split_ifs
  · exact (fBgHz_pos s).le
  · exact fMinHz_pos.le

theorem pAt_split_le (hm : m.Rises) (hc : 0 ≤ params.cEff) (hk : 0 ≤ params.kLeak) {n : Nat}
    {activity tempC f : K} {others : List (Core K)} (hf : 0 ≤ f)
    (hothers : ∀ core ∈ others, 0 ≤ core.1) :
    pAt m params n activity false tempC others f ≤ pAt m params n activity true tempC others f := by
  refine (packagePower_split_le hm hc hk ?_ tempC).2.2.2
  intro core hcore
  rcases List.mem_append.mp hcore with hcore | hcore
  · rw [List.eq_of_mem_replicate hcore]
    exact hf
  · exact hothers core hcore

theorem fCeilingHz_bounds {s : Setup K} (hbig : 0 < s.nBig) :
    3676800000 ≤ s.fCeilingHz ∧ s.fCeilingHz ≤ 4000000000 := by
  refine ⟨?_, (fCeilingHz_mem s).2⟩
  unfold Setup.fCeilingHz turboLimitHz turboBinsHz
  rw [if_neg hbig.ne', if_neg (by omega)]
  split <;> norm_num

/-- The cap cuts both rails to one frequency, unless split rails alone fit somewhere. -/
theorem fWorkHz_eq_iff (hm : m.Rises) (hc : 0 ≤ params.cEff) (hk : 0 ≤ params.kLeak) {n : Nat}
    (hn : 0 < n) (hle : n ≤ nPhysCores) (tempC : K) :
    (rowSetup tempC true n true).fWorkHz m params w =
        (rowSetup tempC true n false).fWorkHz m params w ↔
      ¬ SplitFitsAlone m params w (rowSetup tempC true n true) := by
  obtain ⟨hlow, hhigh⟩ := fCeilingHz_bounds (s := rowSetup tempC true n true) hn
  have hothers := bgStatesFixed_nonneg (rowSetup tempC true n true) w
  have hwork : ∀ sharedRail, (rowSetup tempC true n sharedRail).fWorkHz m params w =
      freqUnderPowerCap m params (rowSetup tempC true n true).nWork 1
        (rowSetup tempC true n true).fCeilingHz pl1W sharedRail tempC
        ((rowSetup tempC true n true).bgStatesFixed w) := by
    intro sharedRail
    exact if_pos (by simpa using hn)
  have hmono : ∀ sharedRail, ∀ f f' : K, 0 ≤ f → f < f' →
      pAt m params (rowSetup tempC true n true).nWork 1 sharedRail tempC
        ((rowSetup tempC true n true).bgStatesFixed w) f <
      pAt m params (rowSetup tempC true n true).nWork 1 sharedRail tempC
        ((rowSetup tempC true n true).bgStatesFixed w) f' := by
    intro sharedRail f f'
    refine pAt_strictMono hm hc hk (nWork_le hle).1 ?_ hothers
    unfold activityC6Eps
    norm_num
  obtain ⟨j, hj, hfreq, hiff⟩ := freqUnderPowerCap_grid pl1W hlow hhigh (hmono true)
  obtain ⟨j', hj', hfreq', hiff'⟩ := freqUnderPowerCap_grid pl1W hlow hhigh (hmono false)
  have hlt : fMinHz < (rowSetup tempC true n true).fCeilingHz := by
    unfold fMinHz
    linarith
  rw [hwork, hwork, hfreq, hfreq', (capGrid_strictMono hlt).injective.eq_iff]
  constructor
  · rintro rfl ⟨i, hi, hi', hfits, hover⟩
    have := (hiff i hi hi').mpr ((hiff' i hi hi').mp hfits)
    exact absurd hover (not_lt.mpr this)
  · intro hnone
    rcases Nat.lt_trichotomy j j' with hjj | heq | hjj
    · -- The last point that fits on split rails does so on these only.
      refine absurd ⟨j', by omega, hj', (hiff' j' (by omega) hj').mpr (le_refl _), ?_⟩ hnone
      exact not_le.mp fun hfits => absurd ((hiff j' (by omega) hj').mp hfits) (by omega)
    · exact heq
    · have hfits := (hiff j (by omega) hj).mpr (le_refl _)
      have hsplit := (pAt_split_le hm hc hk (fMinHz_pos.le.trans (fMinHz_le_capGrid hlt j))
        hothers).trans hfits
      exact absurd ((hiff' j (by omega) hj).mp hsplit) (by omega)

/-! ## What an entry compares -/

/-- The two rows agree in everything but the rail. -/
structure SameButRail (rs rp : Row K) : Prop where
  nBig : rs.nBig = rp.nBig
  fWorkGhz : rs.fWorkGhz = rp.fWorkGhz
  fBgGhz : rs.fBgGhz = rp.fBgGhz
  bgActivity : rs.bgActivity = rp.bgActivity
  tCompileS : rs.tCompileS = rp.tCompileS
  tWindowS : rs.tWindowS = rp.tWindowS

/-- The entry subtracts two such rows, and the shared rail costs no less. -/
def ComparesLike (results : List (Row K)) (e : RailTax K) : Prop :=
  ∃ rs rp, taxedRows results e.nBig = some (rs, rp) ∧ e = railTax e.nBig rs rp ∧
    SameButRail rs rp ∧ 0 ≤ e.railTaxJ

/-- The row of the table. -/
abbrev tableRow (m : Libm K) (params : Params K) (w : Workload K) (tempC : K) (applyPl1 : Bool)
    (n : Nat) (sharedRail : Bool) : Row K :=
  experimentRow m params w (rowSetup tempC applyPl1 n sharedRail)

omit [IsStrictOrderedRing K] in
theorem taxedRows_eq {n : Nat} (hle : n ≤ nPhysCores) (m : Libm K) (params : Params K)
    (w : Workload K) (tempC : K) (applyPl1 : Bool) :
    taxedRows (experimentB m params w tempC applyPl1) n =
      some (tableRow m params w tempC applyPl1 n true,
        tableRow m params w tempC applyPl1 n false) := by
  unfold nPhysCores at hle
  interval_cases n <;> rfl

omit [IsStrictOrderedRing K] in
theorem railTaxByNBig_eq (m : Libm K) (params : Params K) (w : Workload K) (tempC : K)
    (applyPl1 : Bool) :
    railTaxByNBig (experimentB m params w tempC applyPl1) =
      some ((List.range (nPhysCores + 1)).map fun n =>
        railTax n (tableRow m params w tempC applyPl1 n true)
          (tableRow m params w tempC applyPl1 n false)) := rfl

theorem sameButRail_iff (n : Nat) (tempC : K) (applyPl1 : Bool) :
    SameButRail (tableRow m params w tempC applyPl1 n true)
        (tableRow m params w tempC applyPl1 n false) ↔
      (rowSetup tempC applyPl1 n true).fWorkHz m params w =
        (rowSetup tempC applyPl1 n false).fWorkHz m params w := by
  constructor
  · intro h
    exact (div_left_inj' ghz_pos.ne').mp h.fWorkGhz
  · intro h
    have htime : (rowSetup tempC applyPl1 n true).tCompileS w
        ((rowSetup tempC applyPl1 n true).fWorkHz m params w) =
        (rowSetup tempC applyPl1 n false).tCompileS w
          ((rowSetup tempC applyPl1 n false).fWorkHz m params w) := by
      rw [h]
      rfl
    exact ⟨rfl, congrArg (· / ghz) h, rfl, rfl, htime, congrArg (max · w.horizonS) htime⟩

/-- The frequencies of the two phases. -/
theorem phases_nonneg (s : Setup K) (w : Workload K) {fWork : K} (hf : 0 ≤ fWork) :
    (∀ core ∈ s.phase1 w fWork, 0 ≤ core.1) ∧ ∀ core ∈ s.phase2 w, 0 ≤ core.1 := by
  have hbg : 0 ≤ s.fBgHz := (fBgHz_pos s).le
  have hmin : (0 : K) ≤ fMinHz := fMinHz_pos.le
  constructor
  · intro core hcore
    obtain ⟨i, -, rfl⟩ := List.mem_map.mp hcore
    split_ifs <;> assumption
  · intro core hcore
    unfold Setup.phase2 at hcore
    split_ifs at hcore
    · rcases List.mem_append.mp hcore with hcore | hcore
      · rw [List.eq_of_mem_replicate hcore]
        exact hbg
      · rw [List.eq_of_mem_replicate hcore]
        exact hmin
    · obtain ⟨i, -, rfl⟩ := List.mem_map.mp hcore
      split_ifs <;> assumption

/-- At one frequency the shared rail costs no less in either phase. -/
theorem railTaxJ_nonneg (hm : m.Rises) (hc : 0 ≤ params.cEff) (hk : 0 ≤ params.kLeak)
    (hw : 0 ≤ w.wCompileGcycles) {n : Nat} (tempC : K) (applyPl1 : Bool)
    (hsame : (rowSetup tempC applyPl1 n true).fWorkHz m params w =
      (rowSetup tempC applyPl1 n false).fWorkHz m params w) :
    0 ≤ (railTax n (tableRow m params w tempC applyPl1 n true)
      (tableRow m params w tempC applyPl1 n false)).railTaxJ := by
  have hf : 0 ≤ (rowSetup tempC applyPl1 n false).fWorkHz m params w := (fWorkHz_pos _).le
  obtain ⟨hphase1, hphase2⟩ := phases_nonneg (rowSetup tempC applyPl1 n false) w hf
  have hp1 := (packagePower_split_le hm hc hk hphase1 tempC).2.2.2
  have hp2 := (packagePower_split_le hm hc hk hphase2 tempC).2.2.2
  have htime : 0 ≤ (rowSetup tempC applyPl1 n false).tCompileS w
      ((rowSetup tempC applyPl1 n false).fWorkHz m params w) :=
    div_nonneg (mul_nonneg hw ghz_pos.le) (mul_nonneg (Nat.cast_nonneg _) hf)
  unfold railTax tableRow experimentRow
  simp only [hsame]
  rw [sub_nonneg]
  exact add_le_add (mul_le_mul_of_nonneg_right hp1 htime)
    (mul_le_mul_of_nonneg_right hp2 (le_max_left _ _))

/-- An entry compares like with like exactly when its rows have one frequency. -/
theorem comparesLike_iff (hm : m.Rises) (hc : 0 ≤ params.cEff) (hk : 0 ≤ params.kLeak)
    (hw : 0 ≤ w.wCompileGcycles) {n : Nat} (hle : n ≤ nPhysCores) (tempC : K) (applyPl1 : Bool) :
    ComparesLike (experimentB m params w tempC applyPl1)
        (railTax n (tableRow m params w tempC applyPl1 n true)
          (tableRow m params w tempC applyPl1 n false)) ↔
      (rowSetup tempC applyPl1 n true).fWorkHz m params w =
        (rowSetup tempC applyPl1 n false).fWorkHz m params w := by
  have hrows := taxedRows_eq hle m params w tempC applyPl1
  constructor
  · rintro ⟨rs, rp, htaxed, -, hsame, -⟩
    obtain ⟨rfl, rfl⟩ := Prod.mk.inj (Option.some.inj (hrows.symm.trans htaxed))
    exact (sameButRail_iff n tempC applyPl1).mp hsame
  · intro hsame
    exact ⟨_, _, hrows, rfl, (sameButRail_iff n tempC applyPl1).mpr hsame,
      railTaxJ_nonneg hm hc hk hw tempC applyPl1 hsame⟩

omit [IsStrictOrderedRing K] in
/-- Without the cap, and without big cores, the frequency does not depend on the rail. -/
theorem fWorkHz_uncapped {applyPl1 : Bool} {n : Nat} (h : applyPl1 = false ∨ n = 0) (tempC : K) :
    (rowSetup tempC applyPl1 n true).fWorkHz m params w =
      (rowSetup tempC applyPl1 n false).fWorkHz m params w := by
  have hcap : ¬ (applyPl1 && decide (n > 0)) = true := by
    rcases h with rfl | rfl <;> simp
  unfold Setup.fWorkHz
  rw [if_neg hcap, if_neg hcap]
  rfl

end Rows

/-- **The rail tax compares like with like only where the cap cuts alike.** An entry does exactly
when PL1 is not applied, there are no big cores, or no frequency of the bisection's grid fits
under PL1 on split rails only. -/
theorem compares_like_iff (params : Params ℝ) (hc : 0 < params.cEff) (hk : 0 ≤ params.kLeak)
    (w : Workload ℝ) (hw : w.Positive) (tempC : ℝ) (applyPl1 : Bool) :
    ∃ entries, railTaxByNBig (experimentB realLibm params w tempC applyPl1) = some entries ∧
      ∀ e ∈ entries, (ComparesLike (experimentB realLibm params w tempC applyPl1) e ↔
        applyPl1 = false ∨ e.nBig = 0 ∨
          ¬ SplitFitsAlone realLibm params w (rowSetup tempC applyPl1 e.nBig true)) := by
  refine ⟨_, railTaxByNBig_eq realLibm params w tempC applyPl1, fun e he => ?_⟩
  obtain ⟨n, hn, rfl⟩ := List.mem_map.mp he
  have hle : n ≤ nPhysCores := Nat.lt_succ_iff.mp (List.mem_range.mp hn)
  rw [comparesLike_iff realLibm_rises hc.le hk hw.compile.le hle]
  cases applyPl1 with
  | false => exact iff_of_true (fWorkHz_uncapped (.inl rfl) tempC) (.inl rfl)
  | true =>
    rcases Nat.eq_zero_or_pos n with rfl | hpos
    · exact iff_of_true (fWorkHz_uncapped (.inr rfl) tempC) (.inr (.inl rfl))
    · rw [fWorkHz_eq_iff realLibm_rises hc.le hk hpos hle]
      have hbig : (railTax n (tableRow realLibm params w tempC true n true)
        (tableRow realLibm params w tempC true n false)).nBig ≠ 0 := hpos.ne'
      simp only [Bool.true_eq_false, false_or, hbig]
      rfl

/-! ## Two kinds of cores -/

section TwoKinds

variable {m : Libm K} {params : Params K} {sharedRail : Bool} {tempC : K}

omit [Field K] [IsStrictOrderedRing K] in
theorem foldl_max_le {cores : List (Core K)} {f g : K} (hf : f ≤ g)
    (h : ∀ core ∈ cores, core.1 ≤ g) : cores.foldl (fun f c => max f c.1) f ≤ g := by
  induction cores generalizing f with
  | nil => exact hf
  | cons core cores ih =>
    obtain ⟨hcore, hrest⟩ := List.forall_mem_cons.mp h
    exact ih (max_le hf hcore) hrest

omit [Field K] [IsStrictOrderedRing K] in
theorem maxFreq_eq {cores : List (Core K)} {core : Core K} (d : K) (hmem : core ∈ cores)
    (h : ∀ other ∈ cores, other.1 ≤ core.1) : maxFreq d cores = core.1 := by
  refine le_antisymm ?_ (le_maxFreq d hmem)
  cases cores with
  | nil => simp at hmem
  | cons first cores =>
    obtain ⟨hfirst, hrest⟩ := List.forall_mem_cons.mp h
    exact foldl_max_le hfirst hrest

omit [IsStrictOrderedRing K] in
/-- Active cores at one frequency, next to active ones that are no faster. -/
theorem pAt_two {n b : Nat} {activity f aBg fBg : K} (hn : 0 < n) (ha : activityC6Eps < activity)
    (hb : activityC6Eps < aBg) (hle : fBg ≤ f) :
    pAt m params n activity sharedRail tempC (List.replicate b (fBg, aBg)) f =
      (n * (activity * params.cEff * vOfF f ^ 2 * (f / ghz)) +
          b * (aBg * params.cEff * (if sharedRail then vOfF f else vOfF fBg) ^ 2 * (fBg / ghz))) +
        (n * coreLeakageW m params (vOfF f) true tempC +
          b * coreLeakageW m params (if sharedRail then vOfF f else vOfF fBg) true tempC) +
        (params.pSaFloor + ringPower f +
          kUncoreTrafficWPerGhz * (n * (activity * f / ghz) + b * (aBg * fBg / ghz))) := by
  have hwork : isActive (f, activity) = true := decide_eq_true ha
  have hbg : isActive (fBg, aBg) = true := decide_eq_true hb
  have hmem : (f, activity) ∈ List.replicate n (f, activity) ++ List.replicate b (fBg, aBg) :=
    List.mem_append_left _ (List.mem_replicate.mpr ⟨hn.ne', rfl⟩)
  have hall : (List.replicate n (f, activity) ++ List.replicate b (fBg, aBg)).filter isActive =
      List.replicate n (f, activity) ++ List.replicate b (fBg, aBg) := by
    rw [List.filter_append, List.filter_replicate_of_pos hwork, List.filter_replicate_of_pos hbg]
  have hmax : maxFreq fMinHz (List.replicate n (f, activity) ++ List.replicate b (fBg, aBg)) =
      f := by
    refine maxFreq_eq fMinHz hmem fun core hcore => ?_
    rcases List.mem_append.mp hcore with hcore | hcore
    · rw [List.eq_of_mem_replicate hcore]
    · rw [List.eq_of_mem_replicate hcore]
      exact hle
  have hvolts : vCore sharedRail (vOfF f) (f, activity) = vOfF f ∧
      vCore sharedRail (vOfF f) (fBg, aBg) = if sharedRail then vOfF f else vOfF fBg := by
    unfold vCore
    rw [if_pos hwork, if_pos hbg, ite_self]
    exact ⟨rfl, rfl⟩
  unfold pAt
  rw [packagePower_total (by rw [hall]; exact List.ne_nil_of_mem hmem), hall, hmax,
    aggActiveGhz_append, aggActiveGhz_replicate n ha, aggActiveGhz_replicate b hb]
  unfold dynOf leakOf
  simp only [List.map_append, List.map_replicate, List.sum_append, List.sum_replicate,
    nsmul_eq_mul, hwork, hbg, hvolts, if_true]

end TwoKinds

/-! ## One big core under PL1 -/

theorem oneBig_bg (sharedRail : Bool) :
    (rowSetup (60 : ℝ) true 1 sharedRail).bgStatesFixed defaultWorkload =
      List.replicate 3 (800000000, 0.625) := by
  have hactivity : (rowSetup (60 : ℝ) true 1 sharedRail).aBg defaultWorkload = 0.625 := by
    norm_num [Setup.aBg, Setup.bgCyclesPerCore, Setup.nBgCores, Setup.nLittle, Setup.fBgHz,
      fLittleHz, nPhysCores, defaultWorkload, ghz]
  have hfreq : (rowSetup (60 : ℝ) true 1 sharedRail).fBgHz = 800000000 := rfl
  have hcount : (rowSetup (60 : ℝ) true 1 sharedRail).nBgCores defaultWorkload = 3 := rfl
  unfold Setup.bgStatesFixed
  rw [hactivity, hfreq, hcount]
  simp [Setup.nWork, nPhysCores, List.range_succ, List.replicate]

theorem vOfF_work : vOfF (3381250000 : ℝ) = 13727 / 12800 := by
  unfold vOfF mhz vfFirst vfAnchors
  norm_num [Piecewise.interpolate, Piecewise.lastOf, Piecewise.between]

theorem vOfF_little : vOfF (800000000 : ℝ) = 17 / 25 := by
  unfold vOfF mhz vfFirst vfAnchors
  norm_num [Piecewise.interpolate, Piecewise.lastOf, Piecewise.between]

/-- The power of a work core next to three little ones. -/
theorem oneBig_power (sharedRail : Bool) :
    pAt realLibm priorParams 1 1 sharedRail 60 (List.replicate 3 (800000000, 0.625)) 3381250000 =
      2.2 * ((13727 / 12800) ^ 2 * 3.38125 +
          (if sharedRail then 13727 / 12800 else 17 / 25) ^ 2 * 1.5) +
        0.01035 * (leakShape realLibm (13727 / 12800) +
          3 * leakShape realLibm (if sharedRail then 13727 / 12800 else 17 / 25)) +
        (0.9 + 0.55 * (13727 / 12800) ^ 2 * 3.38125 + 0.12 * 4.88125) := by
  have hring : ringPower (3381250000 : ℝ) = 0.55 * (13727 / 12800) ^ 2 * 3.38125 := by
    norm_num [ringPower, ringHz, fRingMinHz, fRingMaxHz, cRingWPerV2Ghz, ghz, vOfF_work]
  have hfactor : leakTempFactor realLibm 60 = 1 := by
    norm_num [leakTempFactor, tRefC, realLibm]
  rw [pAt_two (by decide) (by norm_num [activityC6Eps]) (by norm_num [activityC6Eps])
    (by norm_num), hring, vOfF_work, vOfF_little]
  simp only [coreLeakageW, hfactor, priorParams, kUncoreTrafficWPerGhz, ghz, if_true]
  cases sharedRail <;> norm_num <;> ring

theorem leakShape_le {v b : ℝ} (n : Nat) (hv : 0 ≤ v) (hle : v / vtEffV ≤ n)
    (hb : v * 2.7182818286 ^ n ≤ b) : leakShape realLibm v ≤ b := by
  have hexp : Real.exp (v / vtEffV) ≤ 2.7182818286 ^ n := by
    calc Real.exp (v / vtEffV) ≤ Real.exp n := Real.exp_le_exp.mpr hle
      _ = Real.exp 1 ^ n := by rw [← Real.exp_nat_mul, mul_one]
      _ ≤ 2.7182818286 ^ n := pow_le_pow_left₀ (Real.exp_pos 1).le Real.exp_one_lt_d9.le n
  exact (mul_le_mul_of_nonneg_left hexp hv).trans hb

/-- Split rails alone fit at 3381.25 MHz. -/
theorem oneBig_fits_alone :
    SplitFitsAlone realLibm priorParams defaultWorkload (rowSetup 60 true 1 true) := by
  have hgrid : capGrid (rowSetup (60 : ℝ) true 1 true).fCeilingHz 54272 = 3381250000 := by
    norm_num [capGrid, Bisect.grid, Setup.fCeilingHz, turboLimitHz, turboBinsHz, nPhysCores,
      fMinHz]
  have hleak : ∀ v : ℝ, 0 ≤ v → 0 ≤ leakShape realLibm v := fun v hv =>
    mul_nonneg hv (Real.exp_pos _).le
  refine ⟨54272, by decide, by decide, ?_, ?_⟩
  · rw [hgrid, oneBig_bg]
    have hwork : leakShape realLibm (13727 / 12800) ≤ 59 :=
      leakShape_le 4 (by norm_num) (by norm_num [vtEffV]) (by norm_num)
    have hlittle : leakShape realLibm (17 / 25) ≤ 14 :=
      leakShape_le 3 (by norm_num) (by norm_num [vtEffV]) (by norm_num)
    refine (oneBig_power false).trans_le ?_
    rw [if_neg Bool.false_ne_true, pl1W]
    linarith
  · rw [hgrid, oneBig_bg]
    refine lt_of_lt_of_eq ?_ (oneBig_power true).symm
    have hwork := hleak (13727 / 12800) (by norm_num)
    rw [if_pos rfl, pl1W]
    linarith

/-- Without PL1 every entry does; with it the one without big cores does, the next does not. -/
theorem compares_like_iff_default :
    (∃ entries, railTaxByNBig (experimentB realLibm priorParams defaultWorkload 60 false) =
        some entries ∧
      ∀ e ∈ entries,
        ComparesLike (experimentB realLibm priorParams defaultWorkload 60 false) e) ∧
    ∃ entries, railTaxByNBig (experimentB realLibm priorParams defaultWorkload 60 true) =
        some entries ∧
      ∀ e ∈ entries,
        (e.nBig = 0 →
          ComparesLike (experimentB realLibm priorParams defaultWorkload 60 true) e) ∧
        (e.nBig = 1 →
          ¬ ComparesLike (experimentB realLibm priorParams defaultWorkload 60 true) e) := by
  have hiff := fun applyPl1 => compares_like_iff priorParams (by norm_num [priorParams])
    (by norm_num [priorParams]) defaultWorkload defaultWorkload_positive 60 applyPl1
  constructor
  · obtain ⟨entries, htable, hentries⟩ := hiff false
    exact ⟨entries, htable, fun e he => (hentries e he).mpr (.inl rfl)⟩
  · obtain ⟨entries, htable, hentries⟩ := hiff true
    refine ⟨entries, htable, fun e he => ⟨fun hzero => ?_, fun hone => ?_⟩⟩
    · exact (hentries e he).mpr (.inr (.inl hzero))
    · rw [hentries e he, hone]
      simp [oneBig_fits_alone]

/-- With one big core, PL1 cuts the shared rail further. -/
theorem compares_like_fails :
    ¬ ∃ entries, railTaxByNBig (experimentB realLibm priorParams defaultWorkload 60 true) =
        some entries ∧
      ∀ e ∈ entries,
        ComparesLike (experimentB realLibm priorParams defaultWorkload 60 true) e := by
  rintro ⟨entries, htable, hall⟩
  rw [railTaxByNBig_eq, Option.some.injEq] at htable
  subst htable
  have hone := hall _ (List.mem_map_of_mem (show 1 ∈ List.range (nPhysCores + 1) by decide))
  rw [comparesLike_iff realLibm_rises (by norm_num [priorParams]) (by norm_num [priorParams])
    (by norm_num [defaultWorkload]) (by decide), fWorkHz_eq_iff realLibm_rises
    (by norm_num [priorParams]) (by norm_num [priorParams]) (by decide) (by decide)] at hone
  exact hone oneBig_fits_alone

end Rail

end FakeBigLittle
