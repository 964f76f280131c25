import FakeBigLittle.Gauss
import FakeBigLittle.Rail.Regression
import FakeBigLittle.Ridge

/-!
# The calibration

`calibrate` of `sim/rail_model.py`: the normal equations of the regression, what is made of
their solution, and that they always have one.
-/

namespace FakeBigLittle

open CString

namespace Rail

variable {K : Type} [Field K] [LinearOrder K]

/-! ## The solver -/

def solveLinear {n : Nat} (A : Matrix (Fin n) (Fin n) K) (b : Fin n → K) : Option (Fin n → K) :=
  Gauss.solve 0.00000000000001 A b

/-- **What `_solve_linear` returns is the solution, and a singular system has no result.** -/
theorem solveLinear_correct [IsStrictOrderedRing K] {n : Nat} (A : Matrix (Fin n) (Fin n) K)
    (b : Fin n → K) :
    (∀ x, solveLinear A b = some x → A.mulVec x = b ∧ ∀ y, A.mulVec y = b → y = x) ∧
      (A.det = 0 → solveLinear A b = none) := by
  have heps : (0 : K) < 0.00000000000001 := by norm_num
  constructor
  · intro x hx
    refine ⟨(Gauss.solve_spec heps hx x).mpr rfl, ?_⟩
    intro y hy
    exact (Gauss.solve_spec heps hx y).mp hy
  · intro hdet
    exact Gauss.solve_singular heps hdet

/-- The second equation is twice the first, up to its right-hand side. -/
theorem solveLinear_twice :
    solveLinear !![(1 : ℚ), 2; 2, 4] ![1, 3] = none := by
  apply (solveLinear_correct !![(1 : ℚ), 2; 2, 4] ![1, 3]).2
  rw [Matrix.det_fin_two_of]
  norm_num

/-! ## The fit -/

-- An element of `rows_x` and the one of `rows_y`.
def fitRow (m : Libm K) (sample : Sample K) : Ridge.Row K 3 :=
  let x := regressors m sample.phys sample.tempC
  (![x.x1, x.x2, x.x3], sample.pkgW - x.r)

def lamOf (rows : List (Ridge.Row K 3)) : K :=
  let trace := (Ridge.gram rows).trace
  0.000000001 * if trace = 0 then 1 else trace

def fitBeta (m : Libm K) (samples : List (Sample K)) : Option (Fin 3 → K) :=
  let rows := samples.map (fitRow m)
  solveLinear (Ridge.normal (lamOf rows) rows) (Ridge.moment rows)

/-- What `calibrate` returns, but for the path of the CSV. -/
structure Info (K : Type) where
  nSamplesUsed : Nat
  nRowsSkipped : Nat
  fit : Params K
  prior : Params K
  clampedToPrior : List Text
  residualRmsW : K
  residualMaxAbsW : K
  rSquared : Option K

def cEffWPerV2Ghz : K := 2.20

/-- The parameters of a solution, and the names of those that are replaced. -/
def clamp (beta : Fin 3 → K) : Params K × List Text :=
  ({ cEff := if beta 0 ≤ 0 then cEffWPerV2Ghz else beta 0
     kLeak := if beta 1 < 0 then 0 else beta 1
     pSaFloor := if beta 2 < 0 then 0 else beta 2 },
    (if beta 0 ≤ 0 then ["C_eff".toList] else []) ++
      (if beta 1 < 0 then ["k_leak".toList] else []) ++
      (if beta 2 < 0 then ["p_sa_floor".toList] else []))

/-- The clamp changes no residual. -/
def Harmless (beta : Fin 3 → ℝ) (rows : List (Ridge.Row ℝ 3)) : Prop :=
  0 ≤ beta 1 ∧ 0 ≤ beta 2 ∧ (0 < beta 0 ∨ ∀ row ∈ rows, row.1 0 = 0)

def residuals (rows : List (Ridge.Row K 3)) (beta : Fin 3 → K) : List K :=
  rows.map fun row => row.2 - ∑ i, beta i * row.1 i

-- `1 - sum(r * r) / sstot`; `none` is the NaN
def rSquared (ys resid : List K) : Option K :=
  let ybar := ys.sum / ys.length
  let sstot := (ys.map fun y => (y - ybar) ^ 2).sum
  if sstot > 0.000000000001 then some (1 - (resid.map fun r => r * r).sum / sstot) else none

def needRows (path : Text) (used skipped : Nat) : Text :=
  "calibrate: need >= 4 usable rows in ".toList ++ path ++ " (got ".toList ++
    Nat.toDigits 10 used ++ ", skipped ".toList ++ Nat.toDigits 10 skipped ++ ")".toList

def singular : Text :=
  ("calibrate: design matrix is singular; the samples do not vary " ++
    "enough in frequency/activity to separate the parameters.").toList

/-- `calibrate`: the report and the new `PARAMS`, or the text of the exit. -/
def calibrate (m : Libm K) (sqrt : K → K) (params : Params K) (path : Text)
    (csv : List (Text → Option K)) : Except Text (Info K × Params K) :=
  let (samples, skipped) := loadSamples csv
  if samples.length < 4 then .error (needRows path samples.length skipped)
  else
    let rows := samples.map (fitRow m)
    match fitBeta m samples with
    | none => .error singular
    | some beta =>
      let (fit, clamped) := clamp beta
      let resid := residuals rows beta
      .ok
        ({ nSamplesUsed := samples.length
           nRowsSkipped := skipped
           fit := fit
           prior := params
           clampedToPrior := clamped
           residualRmsW := sqrt ((resid.map fun r => r * r).sum / resid.length)
           residualMaxAbsW := (maxOf (resid.map fun r => |r|)).getD 0
           rSquared := rSquared (rows.map fun row => row.2) resid },
          fit)

/-! ## It is solved -/

section Solved

variable [IsStrictOrderedRing K] {m : Libm K} {samples : List (Sample K)}

/-- The third regressor is 1. -/
theorem length_le_trace (m : Libm K) (samples : List (Sample K)) :
    (samples.length : K) ≤ (Ridge.gram (samples.map (fitRow m))).trace := by
  have hnonneg : ∀ i, 0 ≤ Ridge.gram (samples.map (fitRow m)) i i := by
    intro i
    apply List.sum_nonneg
    intro t ht
    obtain ⟨row, -, rfl⟩ := List.mem_map.mp ht
    exact mul_self_nonneg _
  have hthird : Ridge.gram (samples.map (fitRow m)) 2 2 = samples.length := by
    unfold Ridge.gram fitRow regressors
    simp [Function.comp_def]
  unfold Matrix.trace
  rw [← hthird]
  exact Finset.single_le_sum (f := fun i => Ridge.gram (samples.map (fitRow m)) i i)
    (fun i _ => hnonneg i) (Finset.mem_univ 2)

theorem lamOf_eq (h : 4 ≤ samples.length) :
    lamOf (samples.map (fitRow m)) =
      0.000000001 * (Ridge.gram (samples.map (fitRow m))).trace := by
  have hlength : (0 : K) < samples.length := by
    exact_mod_cast Nat.lt_of_lt_of_le (by decide) h
  have htrace := hlength.trans_le (length_le_trace m samples)
  unfold lamOf
  simp only [if_neg htrace.ne']

theorem lamOf_large (h : 4 ≤ samples.length) :
    (0.000000004 : K) ≤ lamOf (samples.map (fitRow m)) := by
  have hlength : (4 : K) ≤ samples.length := by exact_mod_cast h
  have htrace := hlength.trans (length_le_trace m samples)
  rw [lamOf_eq h]
  calc (0.000000004 : K) = 0.000000001 * 4 := by norm_num
    _ ≤ 0.000000001 * (Ridge.gram (samples.map (fitRow m))).trace := by
      apply mul_le_mul_of_nonneg_left htrace
      norm_num

/-- The threshold of the pivots is far below what is on the diagonal. -/
theorem fitBeta_isSome (m : Libm K) (h : 4 ≤ samples.length) :
    ∃ beta, fitBeta m samples = some beta := by
  have hlarge := lamOf_large (m := m) h
  have hpos : (0 : K) < 0.000000004 := by norm_num
  have hlam : (0 : K) ≤ lamOf (samples.map (fitRow m)) := hpos.le.trans hlarge
  have hsquare : (0.000000004 : K) ^ 2 ≤ lamOf (samples.map (fitRow m)) ^ 2 :=
    pow_le_pow_left₀ hpos.le hlarge 2
  apply Gauss.solve_isSome (sq_nonneg (lamOf (samples.map (fitRow m))))
  · norm_num
  · refine lt_of_lt_of_le ?_ hsquare
    norm_num
  · exact Ridge.normal_bounded hlam _

theorem fitBeta_minimises (h : 4 ≤ samples.length) {beta : Fin 3 → K}
    (hbeta : fitBeta m samples = some beta) {beta' : Fin 3 → K} (hne : beta' ≠ beta) :
    Ridge.cost (lamOf (samples.map (fitRow m))) (samples.map (fitRow m)) beta <
      Ridge.cost (lamOf (samples.map (fitRow m))) (samples.map (fitRow m)) beta' := by
  have hlam : (0 : K) < lamOf (samples.map (fitRow m)) := by
    refine lt_of_lt_of_le ?_ (lamOf_large h)
    norm_num
  have heps : (0 : K) < 0.00000000000001 := by norm_num
  have hsolves := (Gauss.solve_spec heps hbeta beta).mpr rfl
  exact Ridge.cost_lt hlam hsolves hne

/-- **Four samples are enough, however alike they are.** -/
theorem calibrate_solves (m : Libm K) (sqrt : K → K) (params : Params K) (path : Text)
    (csv : List (Text → Option K)) (h : 4 ≤ (loadSamples csv).1.length) :
    let samples := (loadSamples csv).1
    let rows := samples.map (fitRow m)
    let lam := 0.000000001 * (Ridge.gram rows).trace
    ∃ beta, fitBeta m samples = some beta ∧
      (∃ info, calibrate m sqrt params path csv = .ok info) ∧
      ∀ beta' ≠ beta, Ridge.cost lam rows beta < Ridge.cost lam rows beta' := by
  intro samples rows lam
  obtain ⟨beta, hbeta⟩ := fitBeta_isSome m h
  refine ⟨beta, hbeta, ?_, ?_⟩
  · unfold calibrate
    simp only [if_neg (not_lt.mpr h), hbeta]
    exact ⟨_, rfl⟩
  · intro beta' hne
    rw [show lam = lamOf rows from (lamOf_eq h).symm]
    exact fitBeta_minimises h hbeta hne

end Solved

/-- Four rows of a machine that never wakes up. -/
theorem calibrate_solves_idle :
    ∃ beta, fitBeta realLibm (loadSamples (List.replicate 4 idleRow)).1 = some beta := by
  obtain ⟨sample, hload, -⟩ := loadRow_idleRow
  have hlength : 4 ≤ (loadSamples (List.replicate 4 idleRow)).1.length := by
    simp [loadSamples, hload]
  obtain ⟨beta, hbeta, -⟩ := calibrate_solves realLibm Real.sqrt priorParams "idle.csv".toList
    (List.replicate 4 idleRow) hlength
  exact ⟨beta, hbeta⟩

end Rail

end FakeBigLittle
