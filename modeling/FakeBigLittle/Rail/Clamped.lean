import FakeBigLittle.Rail.Calibrate

/-!
# The quality of a clamped fit

`calibrate` replaces what came out non-physical, and reports the residuals of what came out. They
are those of the parameters that it writes only where nothing of it matters.
-/

namespace FakeBigLittle

open CString

namespace Rail

/-! ## What is reported -/

section Report

variable {K : Type} [Field K] [LinearOrder K]

/-- The parameters as the vector of the regression. -/
def vector (params : Params K) : Fin 3 → K := ![params.cEff, params.kLeak, params.pSaFloor]

-- `PARAMS[name]`
def parameter (params : Params K) (name : Text) : Option K :=
  if name = "C_eff".toList then some params.cEff
  else if name = "k_leak".toList then some params.kLeak
  else if name = "p_sa_floor".toList then some params.pSaFloor
  else none

/-- The quality is that of the parameters `fit`, and what is listed as clamped has its value of
before. -/
structure Honest (sqrt : K → K) (before : Params K) (rows : List (Ridge.Row K 3))
    (out : Info K × Params K) : Prop where
  rms : out.1.residualRmsW =
    sqrt (((residuals rows (vector out.2)).map fun r => r * r).sum /
      (residuals rows (vector out.2)).length)
  maxAbs : out.1.residualMaxAbsW =
    (maxOf ((residuals rows (vector out.2)).map fun r => |r|)).getD 0
  rSquared : out.1.rSquared =
    rSquared (rows.map fun row => row.2) (residuals rows (vector out.2))
  clamped : ∀ name ∈ out.1.clampedToPrior, parameter out.2 name = parameter before name

omit [LinearOrder K] in
theorem residuals_eq (rows : List (Ridge.Row K 3)) (beta : Fin 3 → K) :
    residuals rows beta = rows.map fun row => row.2 - row.1 ⬝ᵥ beta := by
  unfold residuals
  simp only [dotProduct, mul_comm]

end Report

/-! ## The distance of the clamp -/

section Distance

variable {beta : Fin 3 → ℝ} {rows : List (Ridge.Row ℝ 3)} {lam : ℝ}

/-- From what came out to what is written. -/
noncomputable def correction (beta : Fin 3 → ℝ) : Fin 3 → ℝ := vector (clamp beta).1 - beta

theorem correction_dot (beta : Fin 3 → ℝ) :
    correction beta ⬝ᵥ beta =
      (if beta 0 ≤ 0 then (cEffWPerV2Ghz - beta 0) * beta 0 else 0) +
        (if beta 1 < 0 then -beta 1 ^ 2 else 0) + if beta 2 < 0 then -beta 2 ^ 2 else 0 := by
  unfold correction vector clamp dotProduct
  rw [Fin.sum_univ_three]
  simp only [Pi.sub_apply, Matrix.cons_val_zero, Matrix.cons_val_one, Matrix.cons_val]
  split_ifs <;> ring

/-- Every replaced value is on the other side of zero. -/
theorem correction_dot_nonpos (beta : Fin 3 → ℝ) :
    correction beta ⬝ᵥ beta ≤ 0 ∧
      (correction beta ⬝ᵥ beta = 0 → 0 ≤ beta 0 ∧ 0 ≤ beta 1 ∧ 0 ≤ beta 2) := by
  have hprior : (0 : ℝ) < cEffWPerV2Ghz := by
    unfold cEffWPerV2Ghz
    norm_num
  have hfirst : (if beta 0 ≤ 0 then (cEffWPerV2Ghz - beta 0) * beta 0 else 0) ≤ 0 ∧
      ((if beta 0 ≤ 0 then (cEffWPerV2Ghz - beta 0) * beta 0 else 0) = 0 → 0 ≤ beta 0) := by
    split_ifs with hneg
    · have hgap : 0 < cEffWPerV2Ghz - beta 0 := by linarith
      constructor
      · exact mul_nonpos_of_nonneg_of_nonpos hgap.le hneg
      · intro hzero
        exact ((mul_eq_zero.mp hzero).resolve_left hgap.ne').ge
    · exact ⟨le_refl 0, fun _ => (not_le.mp hneg).le⟩
  have hother : ∀ x : ℝ, (if x < 0 then -x ^ 2 else 0) ≤ 0 ∧
      ((if x < 0 then -x ^ 2 else 0) = 0 → 0 ≤ x) := by
    intro x
    split_ifs with hneg
    · have hpos : 0 < x ^ 2 := sq_pos_of_ne_zero hneg.ne
      constructor
      · linarith
      · intro hzero
        linarith
    · exact ⟨le_refl 0, fun _ => not_lt.mp hneg⟩
  rw [correction_dot]
  obtain ⟨hle0, hzero0⟩ := hfirst
  obtain ⟨hle1, hzero1⟩ := hother (beta 1)
  obtain ⟨hle2, hzero2⟩ := hother (beta 2)
  constructor
  · linarith
  · intro hsum
    refine ⟨hzero0 ?_, hzero1 ?_, hzero2 ?_⟩
    · linarith
    · linarith
    · linarith

theorem dot_correction_of_harmless (h : Harmless beta rows) :
    ∀ row ∈ rows, row.1 ⬝ᵥ correction beta = 0 := by
  obtain ⟨h1, h2, h0⟩ := h
  intro row hrow
  unfold correction vector clamp dotProduct
  rw [Fin.sum_univ_three]
  simp only [Pi.sub_apply, Matrix.cons_val_zero, Matrix.cons_val_one, Matrix.cons_val,
    if_neg (not_lt.mpr h1), if_neg (not_lt.mpr h2), sub_self, mul_zero, add_zero]
  rcases h0 with hpos | hzero
  · rw [if_neg (not_le.mpr hpos), sub_self, mul_zero]
  · rw [hzero row hrow, zero_mul]

theorem residuals_clamp (h : ∀ row ∈ rows, row.1 ⬝ᵥ correction beta = 0) :
    residuals rows (vector (clamp beta).1) = residuals rows beta := by
  rw [residuals_eq, residuals_eq]
  apply List.map_congr_left
  intro row hrow
  have hsplit : vector (clamp beta).1 = beta + correction beta := by
    unfold correction
    rw [add_sub_cancel]
  rw [hsplit, dotProduct_add, h row hrow, add_zero]

theorem sum_sq_eq_zero {ι : Type} {l : List ι} {f : ι → ℝ} (h : (l.map fun i => f i ^ 2).sum = 0) :
    ∀ i ∈ l, f i = 0 := by
  induction l with
  | nil => simp
  | cons i l ih =>
    rw [List.map_cons, List.sum_cons] at h
    have hrest : 0 ≤ (l.map fun i => f i ^ 2).sum := by
      apply List.sum_nonneg
      intro t ht
      obtain ⟨j, -, rfl⟩ := List.mem_map.mp ht
      exact sq_nonneg _
    have hsq := sq_nonneg (f i)
    rw [List.forall_mem_cons]
    constructor
    · exact pow_eq_zero_iff two_ne_zero |>.mp (by linarith)
    · exact ih (by linarith)

/-- **The squares of the residuals only stay what they are when the clamp is harmless.** -/
theorem squares_clamp_iff (hlam : 0 < lam)
    (h : (Ridge.normal lam rows).mulVec beta = Ridge.moment rows) :
    (rows.map fun row => (row.2 - row.1 ⬝ᵥ vector (clamp beta).1) ^ 2).sum =
        (rows.map fun row => (row.2 - row.1 ⬝ᵥ beta) ^ 2).sum ↔ Harmless beta rows := by
  have hsplit : vector (clamp beta).1 = beta + correction beta := by
    unfold correction
    rw [add_sub_cancel]
  have hsquares := Ridge.squares_add_normal h (correction beta)
  have hnonneg := Ridge.sum_squares_nonneg rows (correction beta)
  obtain ⟨hdot, hdot_zero⟩ := correction_dot_nonpos beta
  constructor
  · intro heq
    rw [hsplit] at heq
    have hscaled : lam * (correction beta ⬝ᵥ beta) ≤ 0 :=
      mul_nonpos_of_nonneg_of_nonpos hlam.le hdot
    have hfits : (rows.map fun row => (row.1 ⬝ᵥ correction beta) ^ 2).sum = 0 := by linarith
    have hsame : lam * (correction beta ⬝ᵥ beta) = 0 := by linarith
    obtain ⟨h0, h1, h2⟩ := hdot_zero ((mul_eq_zero.mp hsame).resolve_left hlam.ne')
    refine ⟨h1, h2, ?_⟩
    rcases h0.eq_or_lt with hzero | hpos
    · refine Or.inr fun row hrow => ?_
      -- only the first parameter moves, by its prior
      have hmove : row.1 ⬝ᵥ correction beta = row.1 0 * cEffWPerV2Ghz := by
        unfold correction vector clamp dotProduct
        rw [Fin.sum_univ_three]
        simp [← hzero, not_lt.mpr h1, not_lt.mpr h2]
      have hprior : (cEffWPerV2Ghz : ℝ) ≠ 0 := by
        unfold cEffWPerV2Ghz
        norm_num
      have hdots := sum_sq_eq_zero hfits row hrow
      rw [hmove] at hdots
      exact (mul_eq_zero.mp hdots).resolve_right hprior
    · exact Or.inl hpos
  · intro hharmless
    have hsame := residuals_clamp (dot_correction_of_harmless hharmless)
    rw [residuals_eq, residuals_eq] at hsame
    have hmaps := congrArg (fun rs => (rs.map fun r => r ^ 2).sum) hsame
    simpa only [List.map_map, Function.comp_def] using hmaps

end Distance

/-! ## The report -/

section Calibration

variable {m : Libm ℝ} {csv : List (Text → Option ℝ)} {beta : Fin 3 → ℝ}
  (params : Params ℝ) (path : Text)

theorem calibrate_ok (h : 4 ≤ (loadSamples csv).1.length)
    (hbeta : fitBeta m (loadSamples csv).1 = some beta) :
    let resid := residuals ((loadSamples csv).1.map (fitRow m)) beta
    ∃ out, calibrate m Real.sqrt params path csv = .ok out ∧ out.2 = (clamp beta).1 ∧
      out.1.clampedToPrior = (clamp beta).2 ∧
      out.1.residualRmsW = √((resid.map fun r => r * r).sum / resid.length) ∧
      out.1.residualMaxAbsW = (maxOf (resid.map fun r => |r|)).getD 0 ∧
      out.1.rSquared =
        rSquared (((loadSamples csv).1.map (fitRow m)).map fun row => row.2) resid := by
  intro resid
  unfold calibrate
  simp only [if_neg (not_lt.mpr h), hbeta]
  exact ⟨_, rfl, rfl, rfl, rfl, rfl, rfl⟩

theorem rms_eq_iff {rows : List (Ridge.Row ℝ 3)} (hne : rows ≠ []) (b b' : Fin 3 → ℝ) :
    √(((residuals rows b).map fun r => r * r).sum / (residuals rows b).length) =
        √(((residuals rows b').map fun r => r * r).sum / (residuals rows b').length) ↔
      (rows.map fun row => (row.2 - row.1 ⬝ᵥ b) ^ 2).sum =
        (rows.map fun row => (row.2 - row.1 ⬝ᵥ b') ^ 2).sum := by
  have hlength : (0 : ℝ) < rows.length := by exact_mod_cast List.length_pos_of_ne_nil hne
  have hsquares : ∀ b : Fin 3 → ℝ, ((residuals rows b).map fun r => r * r).sum =
      (rows.map fun row => (row.2 - row.1 ⬝ᵥ b) ^ 2).sum := by
    intro b
    rw [residuals_eq, List.map_map]
    simp only [Function.comp_def, sq]
  have hnonneg : ∀ b : Fin 3 → ℝ, 0 ≤ (rows.map fun row => (row.2 - row.1 ⬝ᵥ b) ^ 2).sum := by
    intro b
    apply List.sum_nonneg
    intro t ht
    obtain ⟨row, -, rfl⟩ := List.mem_map.mp ht
    exact sq_nonneg _
  have hcount : ∀ b : Fin 3 → ℝ, (residuals rows b).length = rows.length := by
    intro b
    rw [residuals_eq, List.length_map]
  rw [hsquares, hsquares, hcount, hcount, Real.sqrt_inj (div_nonneg (hnonneg b) hlength.le)
    (div_nonneg (hnonneg b') hlength.le), div_left_inj' hlength.ne']

/-- What is listed has the value of before. -/
theorem clamped_iff (beta : Fin 3 → ℝ) (before : Params ℝ) (h1 : 0 ≤ beta 1) (h2 : 0 ≤ beta 2) :
    (∀ name ∈ (clamp beta).2, parameter (clamp beta).1 name = parameter before name) ↔
      0 < beta 0 ∨ before.cEff = cEffWPerV2Ghz := by
  unfold clamp
  simp only [if_neg (not_lt.mpr h1), if_neg (not_lt.mpr h2), List.append_nil]
  by_cases hpos : 0 < beta 0
  · simp [not_le.mpr hpos, hpos]
  · simp only [if_pos (not_lt.mp hpos), List.mem_singleton, forall_eq, hpos, false_or]
    unfold parameter
    simp [eq_comm]

/-- The report of a solution is honest where the clamp is harmless, and its prior is the one
written down. -/
theorem honest_iff (h : 4 ≤ (loadSamples csv).1.length)
    (hbeta : fitBeta m (loadSamples csv).1 = some beta) :
    let rows := (loadSamples csv).1.map (fitRow m)
    (∃ out, calibrate m Real.sqrt params path csv = .ok out ∧
        Honest Real.sqrt params rows out) ↔
      Harmless beta rows ∧ (0 < beta 0 ∨ params.cEff = cEffWPerV2Ghz) := by
  intro rows
  have hrows : rows ≠ [] := by
    apply List.ne_nil_of_length_pos
    rw [List.length_map]
    omega
  have hlam : (0 : ℝ) < lamOf rows := by
    refine lt_of_lt_of_le ?_ (lamOf_large h)
    norm_num
  have heps : (0 : ℝ) < 0.00000000000001 := by norm_num
  have hnormal : (Ridge.normal (lamOf rows) rows).mulVec beta = Ridge.moment rows :=
    (Gauss.solve_spec heps hbeta beta).mpr rfl
  obtain ⟨out, hok, hfit, hlist, hrms, hmax, hrsq⟩ := calibrate_ok params path h hbeta
  rw [hok]
  constructor
  · rintro ⟨out', hsame, hhonest⟩
    obtain rfl := Except.ok.inj hsame
    have hquality := hhonest.rms
    rw [hrms, hfit] at hquality
    have hharmless := (squares_clamp_iff hlam hnormal).mp
      ((rms_eq_iff hrows _ _).mp hquality).symm
    refine ⟨hharmless, ?_⟩
    have hclamped := hhonest.clamped
    rw [hlist, hfit] at hclamped
    exact (clamped_iff beta params hharmless.1 hharmless.2.1).mp hclamped
  · rintro ⟨hharmless, hprior⟩
    have hsame := residuals_clamp (dot_correction_of_harmless hharmless)
    refine ⟨out, rfl, ?_⟩
    constructor
    · rw [hrms, hfit, hsame]
    · rw [hmax, hfit, hsame]
    · rw [hrsq, hfit, hsame]
    · rw [hlist, hfit]
      exact (clamped_iff beta params hharmless.1 hharmless.2.1).mpr hprior

/-- **The report is about the parameters that are written when none of the least squares had to
be replaced, or only the one that no sample depends on.** -/
theorem calibrate_honest_iff (m : Libm ℝ) (params : Params ℝ) (path : Text)
    (csv : List (Text → Option ℝ)) (h : 4 ≤ (loadSamples csv).1.length) :
    let rows := (loadSamples csv).1.map (fitRow m)
    let lam := 0.000000001 * (Ridge.gram rows).trace
    (∃ out, calibrate m Real.sqrt params path csv = .ok out ∧
        Honest Real.sqrt params rows out) ↔
      ∃ beta, (∀ beta' ≠ beta, Ridge.cost lam rows beta < Ridge.cost lam rows beta') ∧
        0 ≤ beta 1 ∧ 0 ≤ beta 2 ∧
        (0 < beta 0 ∨ (∀ row ∈ rows, row.1 0 = 0) ∧ params.cEff = cEffWPerV2Ghz) := by
  intro rows lam
  obtain ⟨beta, hbeta⟩ := fitBeta_isSome m h
  have hmin : ∀ beta' ≠ beta, Ridge.cost lam rows beta < Ridge.cost lam rows beta' := by
    intro beta' hne
    rw [show lam = lamOf rows from (lamOf_eq h).symm]
    exact fitBeta_minimises h hbeta hne
  refine (honest_iff params path h hbeta).trans ?_
  unfold Harmless
  constructor
  · rintro ⟨⟨h1, h2, hfirst⟩, hprior⟩
    refine ⟨beta, hmin, h1, h2, ?_⟩
    rcases hfirst with hpos | hzero
    · exact Or.inl hpos
    · exact hprior.imp_right fun hprior => ⟨hzero, hprior⟩
  · rintro ⟨beta', hmin', h1, h2, hfirst⟩
    -- there is only one minimiser
    have hsame : beta' = beta := by
      by_contra hne
      exact lt_asymm (hmin beta' hne) (hmin' beta (Ne.symm hne))
    subst hsame
    rcases hfirst with hpos | ⟨hzero, hprior⟩
    · exact ⟨⟨h1, h2, Or.inl hpos⟩, Or.inl hpos⟩
    · exact ⟨⟨h1, h2, Or.inr hzero⟩, Or.inr hprior⟩

end Calibration

/-! ## Four equal samples -/

section Flat

variable {m : Libm ℝ} {pkg f busy : ℚ} {sample : Sample ℝ}

theorem loadSamples_flat (hload : loadRow (flatRow pkg f busy) = some sample) :
    (loadSamples (List.replicate 4 (flatRow pkg f busy))).1 = List.replicate 4 sample := by
  simp [loadSamples, hload]

/-- The solution is a multiple of the regressors, with the sign of the target. -/
theorem fitBeta_flat (hload : loadRow (flatRow pkg f busy) = some sample) {beta : Fin 3 → ℝ}
    (hbeta : fitBeta m (loadSamples (List.replicate 4 (flatRow pkg f busy))).1 = some beta) :
    ∃ scale : ℝ, 0 < scale ∧ beta = (scale * (fitRow m sample).2) • (fitRow m sample).1 := by
  rw [loadSamples_flat hload] at hbeta
  have hlam : (0 : ℝ) < lamOf ((List.replicate 4 sample).map (fitRow m)) := by
    refine lt_of_lt_of_le ?_ (lamOf_large (by simp))
    norm_num
  have heps : (0 : ℝ) < 0.00000000000001 := by norm_num
  have hrows : (List.replicate 4 sample).map (fitRow m) =
      List.replicate 4 ((fitRow m sample).1, (fitRow m sample).2) := List.map_replicate
  unfold fitBeta at hbeta
  simp only [hrows] at hbeta hlam
  have hself : 0 ≤ (fitRow m sample).1 ⬝ᵥ (fitRow m sample).1 := by
    unfold dotProduct
    exact Finset.sum_nonneg fun i _ => mul_self_nonneg _
  have hscale : 0 < (4 : Nat) * ((fitRow m sample).1 ⬝ᵥ (fitRow m sample).1) +
      lamOf (List.replicate 4 ((fitRow m sample).1, (fitRow m sample).2)) := by positivity
  refine ⟨(4 : Nat) / _, div_pos (by norm_num) hscale, ?_⟩
  refine ((Gauss.solve_spec heps hbeta _).mp (Ridge.normal_replicate ?_)).symm
  field_simp

theorem ringPower_nonneg (f : ℝ) : 0 ≤ ringPower f := by
  have hfreq : 0 ≤ ringHz f := by
    unfold ringHz fRingMinHz fRingMaxHz
    exact le_min (le_max_of_le_right (by norm_num)) (by norm_num)
  have hcoefficient : (0 : ℝ) ≤ cRingWPerV2Ghz := by
    unfold cRingWPerV2Ghz
    norm_num
  have hghz : (0 : ℝ) ≤ ghz := by
    unfold ghz
    norm_num
  exact mul_nonneg (mul_nonneg hcoefficient (sq_nonneg _)) (div_nonneg hfreq hghz)

/-- Everything awake at 400 MHz, and a package that reports 0.1 W. -/
theorem calibrate_honest_fails :
    ¬∃ out, calibrate realLibm Real.sqrt priorParams "awake.csv".toList
        (List.replicate 4 (flatRow (1 / 10) 400 1)) = .ok out ∧
      Honest Real.sqrt priorParams
        ((loadSamples (List.replicate 4 (flatRow (1 / 10) 400 1))).1.map (fitRow realLibm))
        out := by
  obtain ⟨sample, hload, hphys, hpkg⟩ := loadRow_flatRow (by norm_num : (0 : ℚ) < 1 / 10) 400 1
  have hlength : 4 ≤ (loadSamples (List.replicate 4 (flatRow (1 / 10) 400 1))).1.length := by
    rw [loadSamples_flat hload, List.length_replicate]
  obtain ⟨beta, hbeta⟩ := fitBeta_isSome realLibm hlength
  obtain ⟨scale, hscale, rfl⟩ := fitBeta_flat hload hbeta
  -- the traffic alone takes more than the package
  have htarget : (fitRow realLibm sample).2 < 0 := by
    have hactive : sample.phys.filter isActive = sample.phys := by
      apply List.filter_eq_self.mpr
      intro core hcore
      rw [hphys] at hcore
      rw [List.eq_of_mem_replicate hcore]
      unfold isActive activityC6Eps
      norm_num
    have hring := ringPower_nonneg (maxFreq fMinHz sample.phys)
    have htraffic : (sample.phys.map fun core => core.2 * core.1 / ghz).sum = 1.6 := by
      rw [hphys]
      unfold nPhysCores mhz ghz
      norm_num [List.replicate]
    have hsome : sample.phys ≠ [] := by
      rw [hphys]
      simp [nPhysCores]
    unfold fitRow regressors
    simp only [hactive, if_neg hsome, htraffic, hpkg]
    unfold kUncoreTrafficWPerGhz
    norm_num
    linarith
  intro hhonest
  obtain ⟨⟨-, hfloor, -⟩, -⟩ := (honest_iff priorParams _ hlength hbeta).mp hhonest
  have hone : (fitRow realLibm sample).1 2 = 1 := rfl
  rw [Pi.smul_apply, hone, smul_eq_mul, mul_one] at hfloor
  exact absurd hfloor (not_le.mpr (mul_neg_of_pos_of_neg hscale htarget))

/-- A machine that never wakes up: only the parameter that no sample depends on is replaced. -/
theorem calibrate_honest_idle :
    ∃ out, calibrate realLibm Real.sqrt priorParams "idle.csv".toList
        (List.replicate 4 (flatRow (2 / 5) 400 0)) = .ok out ∧
      Honest Real.sqrt priorParams
        ((loadSamples (List.replicate 4 (flatRow (2 / 5) 400 0))).1.map (fitRow realLibm)) out := by
  obtain ⟨sample, hload, hphys, hpkg⟩ := loadRow_flatRow (by norm_num : (0 : ℚ) < 2 / 5) 400 0
  have hlength : 4 ≤ (loadSamples (List.replicate 4 (flatRow (2 / 5) 400 0))).1.length := by
    rw [loadSamples_flat hload, List.length_replicate]
  obtain ⟨beta, hbeta⟩ := fitBeta_isSome realLibm hlength
  obtain ⟨scale, hscale, hscaled⟩ := fitBeta_flat hload hbeta
  have hactive : sample.phys.filter isActive = [] := by
    apply List.filter_eq_nil_iff.mpr
    intro core hcore
    rw [hphys] at hcore
    rw [List.eq_of_mem_replicate hcore]
    unfold isActive activityC6Eps
    norm_num
  have htarget : (fitRow realLibm sample).2 = 2 / 5 := by
    unfold fitRow regressors
    simp only [hactive, if_true, hpkg]
    norm_num
  have hdynamic : (fitRow realLibm sample).1 0 = 0 := by
    unfold fitRow regressors
    simp [hactive]
  have hleak : 0 ≤ (fitRow realLibm sample).1 1 := by
    apply List.sum_nonneg
    intro t ht
    obtain ⟨core, -, rfl⟩ := List.mem_map.mp ht
    have hshape : 0 ≤ leakShape realLibm (vOfF (maxFreq fMinHz (sample.phys.filter isActive))) :=
      mul_nonneg (vOfF_pos _).le (realLibm_rises.exp_pos _).le
    have hfactor : 0 ≤ leakTempFactor realLibm sample.tempC := (realLibm_rises.pow2_pos _).le
    have hstate : (0 : ℝ) ≤ if isActive core then 1 else c6LeakResidual := by
      unfold c6LeakResidual
      split_ifs <;> norm_num
    exact mul_nonneg (mul_nonneg hshape hfactor) hstate
  have hpositive : 0 ≤ scale * (fitRow realLibm sample).2 := by
    rw [htarget]
    positivity
  apply (calibrate_honest_iff realLibm priorParams _ _ hlength).mpr
  refine ⟨beta, ?_, ?_, ?_, Or.inr ⟨?_, rfl⟩⟩
  · intro beta' hne
    rw [← lamOf_eq hlength]
    exact fitBeta_minimises hlength hbeta hne
  · rw [hscaled]
    exact mul_nonneg hpositive hleak
  · rw [hscaled]
    exact mul_nonneg hpositive zero_le_one
  · intro row hrow
    rw [loadSamples_flat hload, List.map_replicate] at hrow
    rw [List.eq_of_mem_replicate hrow]
    exact hdynamic

end Flat

end Rail

end FakeBigLittle
