import FakeBigLittle.Rail.PowerCap
import Mathlib.Tactic.Positivity

/-!
# Is all the work charged for

The energy of a row is that of the cores in its two phases. The background is in them only
where there are little cores for it, and at an activity that may be cut.
-/

namespace FakeBigLittle

namespace Rail

variable {K : Type} [Field K] [LinearOrder K]

/-! ## Cycles -/

/-- What the cores execute in `t` seconds: activity times frequency times time. -/
def cycles (cores : List (Core K)) (t : K) : K := (cores.map fun c => c.2 * c.1 * t).sum

/-- What the cores of a row execute in its two phases. -/
def executedCycles (m : Libm K) (params : Params K) (w : Workload K) (s : Setup K) : K :=
  let row := experimentRow m params w s
  cycles (s.phase1 w (s.fWorkHz m params w)) row.tCompileS +
    cycles (s.phase2 w) (row.tWindowS - row.tCompileS)

def Workload.cycles (w : Workload K) : K :=
  (w.wCompileGcycles + w.nLightTasks * w.wLightGcyclesPerTask) * ghz

structure Workload.Positive (w : Workload K) : Prop where
  compile : 0 < w.wCompileGcycles
  light : 0 < w.wLightGcyclesPerTask
  tasks : 0 < w.nLightTasks
  horizon : 0 < w.horizonS

omit [LinearOrder K] in
theorem cycles_append (cores cores' : List (Core K)) (t : K) :
    Rail.cycles (cores ++ cores') t = Rail.cycles cores t + Rail.cycles cores' t := by
  unfold Rail.cycles
  rw [List.map_append, List.sum_append]

omit [LinearOrder K] in
theorem cycles_replicate (n : Nat) (core : Core K) (t : K) :
    Rail.cycles (List.replicate n core) t = n * (core.2 * core.1 * t) := by
  unfold Rail.cycles
  rw [List.map_replicate, List.sum_replicate, nsmul_eq_mul]

omit [LinearOrder K] in
/-- Only the first `b` of `k` cores are not idle. -/
theorem cycles_range {k b : Nat} (h : b ≤ k) (core : Core K) (f t : K) :
    Rail.cycles ((List.range k).map fun i => if i < b then core else (f, 0)) t =
      b * (core.2 * core.1 * t) := by
  have hsplit := map_range_split h (k - b) core (f, (0 : K)) (f, 0)
  simp only [ite_self] at hsplit
  rw [hsplit, List.map_const', List.length_range, cycles_append, cycles_replicate,
    cycles_replicate]
  ring

variable [IsStrictOrderedRing K] {m : Libm K} {params : Params K} {w : Workload K} {s : Setup K}

/-! ## The background -/

theorem fBgHz_pos (s : Setup K) : 0 < s.fBgHz := by
  unfold Setup.fBgHz
  split_ifs
  · unfold fLittleHz
    norm_num
  · exact fMinHz_pos.trans_le (fCeilingHz_mem s).1

omit [IsStrictOrderedRing K] in
theorem nBgCores_pos (hw : w.Positive) (h : s.nBig ≤ nPhysCores) : 0 < s.nBgCores w := by
  have htasks := hw.tasks
  unfold Setup.nBgCores Setup.nLittle
  unfold nPhysCores at h ⊢
  split_ifs <;> omega

/-- What all tasks need, core by core. -/
theorem background_needs (hw : w.Positive) (h : s.nBig ≤ nPhysCores) :
    w.nLightTasks * w.wLightGcyclesPerTask * ghz =
      s.nBgCores w * (s.bgCyclesPerCore w * ghz) := by
  have hpos := nBgCores_pos hw h
  have hne : (s.nBgCores w : K) ≠ 0 := Nat.cast_ne_zero.mpr hpos.ne'
  unfold Setup.bgCyclesPerCore
  rw [Nat.max_eq_left (show 1 ≤ s.nBgCores w from hpos)]
  field_simp

/-- What a background core gets done by the horizon, unless its activity is cut. -/
theorem background_core (hw : w.Positive) :
    s.aBg w * s.fBgHz * w.horizonS =
      min (s.fBgHz * w.horizonS) (s.bgCyclesPerCore w * ghz) := by
  have hcap : 0 < s.fBgHz * w.horizonS := mul_pos (fBgHz_pos s) hw.horizon
  unfold Setup.aBg
  rw [mul_assoc, min_mul_of_nonneg _ _ hcap.le, one_mul, div_mul_cancel₀ _ hcap.ne']

theorem aBg_pos (hw : w.Positive) : 0 < s.aBg w := by
  have hneeds : 0 < s.bgCyclesPerCore w := by
    have htasks : (0 : K) < w.nLightTasks := Nat.cast_pos.mpr hw.tasks
    have hcores : (0 : K) < (max (s.nBgCores w) 1 : Nat) := Nat.cast_pos.mpr (by omega)
    exact div_pos (mul_pos htasks hw.light) hcores
  unfold Setup.aBg
  exact lt_min one_pos (div_pos (mul_pos hneeds ghz_pos) (mul_pos (fBgHz_pos s) hw.horizon))

/-! ## The compile -/

theorem fWorkHz_pos (s : Setup K) : 0 < s.fWorkHz m params w := by
  have hceiling := (fCeilingHz_mem s).1
  unfold Setup.fWorkHz
  split_ifs
  · exact fMinHz_pos.trans_le (freqUnderPowerCap_mem hceiling).1
  · exact fMinHz_pos.trans_le hceiling

/-- The work cores get the compile done in `t_compile`. -/
theorem compile_core (m : Libm K) (params : Params K) (w : Workload K) (h : s.nBig ≤ nPhysCores) :
    (s.nWork : K) * (1 * s.fWorkHz m params w * s.tCompileS w (s.fWorkHz m params w)) =
      w.wCompileGcycles * ghz := by
  have hwork : (s.nWork : K) ≠ 0 := Nat.cast_ne_zero.mpr (nWork_le h).1.ne'
  have hfreq : s.fWorkHz m params w ≠ 0 := (fWorkHz_pos s).ne'
  unfold Setup.tCompileS
  field_simp

/-! ## The two phases -/

/-- The row is deadline-feasible. -/
def Feasible (m : Libm K) (params : Params K) (w : Workload K) (s : Setup K) : Prop :=
  (experimentRow m params w s).finishedInHorizon = true

/-- The compile is part of phase 1, next to what runs of the background. -/
theorem executed_eq (h : s.nBig ≤ nPhysCores) (hfeasible : Feasible m params w s) :
    executedCycles m params w s = w.wCompileGcycles * ghz +
      Rail.cycles (s.bgStatesFixed w) (s.tCompileS w (s.fWorkHz m params w)) +
      Rail.cycles (s.phase2 w) (w.horizonS - s.tCompileS w (s.fWorkHz m params w)) := by
  have hintime : s.tCompileS w (s.fWorkHz m params w) ≤ w.horizonS := of_decide_eq_true hfeasible
  have hcompile := compile_core m params w h
  unfold executedCycles experimentRow
  simp only [max_eq_right hintime]
  rw [phase1_eq h, cycles_append, cycles_replicate, hcompile]

/-- With cores for both, the background runs in both phases. -/
theorem executed_between (hbig : 0 < s.nBig) (hlt : s.nBig < nPhysCores)
    (hfeasible : Feasible m params w s) :
    executedCycles m params w s = w.wCompileGcycles * ghz +
      s.nBgCores w * (s.aBg w * s.fBgHz * w.horizonS) := by
  have hwork : s.nWork = s.nBig := if_neg hbig.ne'
  have hlittle : s.nLittle = nPhysCores - s.nWork := by rw [hwork]; rfl
  have hpos : 0 < s.nLittle := by omega
  have hcores : s.nBgCores w ≤ nPhysCores - s.nWork := by
    unfold Setup.nBgCores
    rw [if_pos hpos, hlittle]
    exact min_le_left _ _
  have hphase2 : s.phase2 w = List.replicate s.nWork (fMinHz, 0) ++ s.bgStatesFixed w := by
    unfold Setup.phase2
    rw [if_neg (by omega)]
    exact map_range_split (by omega) _ _ _ _
  rw [executed_eq hlt.le hfeasible, hphase2, cycles_append, cycles_replicate]
  unfold Setup.bgStatesFixed
  rw [cycles_range hcores, cycles_range hcores]
  ring

/-- Without big cores the background does not run at all. -/
theorem executed_no_big (hbig : s.nBig = 0) (hfeasible : Feasible m params w s) :
    executedCycles m params w s = w.wCompileGcycles * ghz := by
  have hlittle : s.nLittle = nPhysCores := by
    unfold Setup.nLittle
    rw [hbig, Nat.sub_zero]
  have hwork : s.nWork = nPhysCores := by
    unfold Setup.nWork
    rw [if_pos hbig, hlittle]
  have hnone : s.bgStatesFixed w = [] := by
    unfold Setup.bgStatesFixed
    rw [hwork]
    rfl
  have hphase2 : s.phase2 w = List.replicate nPhysCores (fMinHz, 0) := by
    unfold Setup.phase2
    rw [if_neg (by simp [hlittle, nPhysCores]), map_range_split (by rw [hwork]), hwork]
    rfl
  rw [executed_eq (by omega) hfeasible, hnone, hphase2, cycles_replicate]
  unfold Rail.cycles
  simp

/-- With big cores only, the background waits for the end of the compile. -/
theorem executed_all_big (hbig : s.nBig = nPhysCores) (hw : w.Positive)
    (hfeasible : Feasible m params w s) :
    executedCycles m params w s = w.wCompileGcycles * ghz + s.nBgCores w *
      (s.aBg w * s.fBgHz * (w.horizonS - s.tCompileS w (s.fWorkHz m params w))) := by
  have hlittle : s.nLittle = 0 := by
    unfold Setup.nLittle
    omega
  have hwork : s.nWork = nPhysCores := by
    unfold Setup.nWork
    rw [if_neg (by rw [hbig]; decide), hbig]
  have hnone : s.bgStatesFixed w = [] := by
    unfold Setup.bgStatesFixed
    rw [hwork]
    rfl
  have hphase2 : s.phase2 w = List.replicate (s.nBgCores w) (s.fBgHz, s.aBg w) ++
      List.replicate (nPhysCores - s.nBgCores w) (fMinHz, 0) := by
    unfold Setup.phase2
    rw [if_pos ⟨nBgCores_pos hw hbig.le, hlittle⟩]
  rw [executed_eq hbig.le hfeasible, hnone, hphase2, cycles_append, cycles_replicate,
    cycles_replicate]
  unfold Rail.cycles
  simp

/-! ## Is it all charged -/

/-- The row executes the compile and all background tasks. -/
def ChargesAll (m : Libm K) (params : Params K) (w : Workload K) (s : Setup K) : Prop :=
  w.cycles ≤ executedCycles m params w s

theorem Workload.cycles_eq (hw : w.Positive) (h : s.nBig ≤ nPhysCores) :
    w.cycles = w.wCompileGcycles * ghz + s.nBgCores w * (s.bgCyclesPerCore w * ghz) := by
  unfold Workload.cycles
  rw [add_mul, background_needs hw h]

/-- The little cores that get a task each have the cycles for all tasks. -/
def BackgroundFits (w : Workload K) (nBig : Nat) : Prop :=
  w.nLightTasks * w.wLightGcyclesPerTask * ghz ≤
    (min (nPhysCores - nBig) w.nLightTasks : Nat) * (fLittleHz * w.horizonS)

theorem charges_between_iff (hw : w.Positive) (hbig : 0 < s.nBig) (hlt : s.nBig < nPhysCores)
    (hfeasible : Feasible m params w s) :
    ChargesAll m params w s ↔ BackgroundFits w s.nBig := by
  have hcores : (0 : K) < s.nBgCores w := Nat.cast_pos.mpr (nBgCores_pos hw hlt.le)
  have hlittle : 0 < s.nLittle := Nat.sub_pos_of_lt hlt
  have hcount : s.nBgCores w = min (nPhysCores - s.nBig) w.nLightTasks := if_pos hlittle
  have hfreq : s.fBgHz = fLittleHz := if_pos hlittle
  unfold ChargesAll BackgroundFits
  rw [executed_between hbig hlt hfeasible, Workload.cycles_eq hw hlt.le, background_core hw,
    add_le_add_iff_left, background_needs hw hlt.le, ← hcount, ← hfreq,
    mul_le_mul_iff_right₀ hcores, mul_le_mul_iff_right₀ hcores, le_min_iff]
  exact ⟨fun h => h.1, fun h => ⟨h, le_refl _⟩⟩

theorem not_charges_no_big (hw : w.Positive) (hbig : s.nBig = 0)
    (hfeasible : Feasible m params w s) : ¬ ChargesAll m params w s := by
  have htasks : (0 : K) < w.nLightTasks := Nat.cast_pos.mpr hw.tasks
  have hlight := mul_pos (mul_pos htasks hw.light) (ghz_pos (K := K))
  unfold ChargesAll Workload.cycles
  rw [executed_no_big hbig hfeasible, add_mul]
  linarith

theorem not_charges_all_big (hw : w.Positive) (hbig : s.nBig = nPhysCores)
    (hfeasible : Feasible m params w s) : ¬ ChargesAll m params w s := by
  have hcores : (0 : K) < s.nBgCores w := Nat.cast_pos.mpr (nBgCores_pos hw hbig.le)
  have htime : 0 < s.tCompileS w (s.fWorkHz m params w) := by
    have hwork : (0 : K) < s.nWork := Nat.cast_pos.mpr (nWork_le hbig.le).1
    exact div_pos (mul_pos hw.compile ghz_pos) (mul_pos hwork (fWorkHz_pos s))
  have hrate : 0 < s.aBg w * s.fBgHz := mul_pos (aBg_pos hw) (fBgHz_pos s)
  have hlost : s.aBg w * s.fBgHz * (w.horizonS - s.tCompileS w (s.fWorkHz m params w)) <
      s.bgCyclesPerCore w * ghz := by
    have hbound := (background_core (s := s) hw).trans_le (min_le_right _ _)
    refine lt_of_lt_of_le (mul_lt_mul_of_pos_left ?_ hrate) hbound
    linarith
  unfold ChargesAll
  rw [executed_all_big hbig hw hfeasible, Workload.cycles_eq hw hbig.le, not_le]
  exact add_lt_add_right (mul_lt_mul_of_pos_left hlost hcores) _

/-- **A feasible row charges for all the work on mixed partitions only.** It does exactly when
there are big and little cores and the background fits into the horizon. -/
theorem charges_all_iff (m : Libm K) (params : Params K) (w : Workload K) (hw : w.Positive)
    (tempC : K) (applyPl1 : Bool) (s : Setup K) (hs : s ∈ setups tempC applyPl1)
    (hfeasible : Feasible m params w s) :
    ChargesAll m params w s ↔ 0 < s.nBig ∧ s.nBig < nPhysCores ∧ BackgroundFits w s.nBig := by
  have hle := (nBig_le_of_mem hs).1
  rcases Nat.eq_zero_or_pos s.nBig with hnone | hbig
  · exact iff_of_false (not_charges_no_big hw hnone hfeasible) (by omega)
  · rcases Nat.eq_or_lt_of_le hle with hall | hlt
    · exact iff_of_false (not_charges_all_big hw hall hfeasible) (by omega)
    · rw [charges_between_iff hw hbig hlt hfeasible]
      exact ⟨fun h => ⟨hbig, hlt, h⟩, fun h => h.2.2⟩

theorem defaultWorkload_positive : (defaultWorkload : Workload K).Positive where
  compile := by norm_num [defaultWorkload]
  light := by norm_num [defaultWorkload]
  tasks := by simp [defaultWorkload]
  horizon := by norm_num [defaultWorkload]

omit [IsStrictOrderedRing K] in
theorem feasible_of_le (h : s.tCompileS w (s.fWorkHz m params w) ≤ w.horizonS) :
    Feasible m params w s := decide_eq_true h

/-- The default workload on two big cores, without PL1. -/
theorem charges_all_iff_two :
    ChargesAll realLibm priorParams defaultWorkload ⟨2, true, 60, false⟩ := by
  refine (charges_all_iff realLibm priorParams defaultWorkload defaultWorkload_positive 60 false
    ⟨2, true, 60, false⟩ (by simp [setups, nPhysCores]) (feasible_of_le ?_)).mpr
      ⟨by decide, by decide, ?_⟩
  · norm_num [Setup.tCompileS, Setup.fWorkHz, Setup.fCeilingHz, Setup.nWork, turboLimitHz,
      turboBinsHz, nPhysCores, defaultWorkload, ghz]
  · norm_num [BackgroundFits, fLittleHz, nPhysCores, defaultWorkload, ghz]

/-- On big cores only it is not charged in full. -/
theorem charges_all_fails :
    ¬ ∀ s ∈ setups (60 : ℝ) false, Feasible realLibm priorParams defaultWorkload s →
      ChargesAll realLibm priorParams defaultWorkload s := by
  intro h
  have hfeasible : Feasible realLibm priorParams defaultWorkload ⟨4, true, 60, false⟩ := by
    apply feasible_of_le
    norm_num [Setup.tCompileS, Setup.fWorkHz, Setup.fCeilingHz, Setup.nWork, turboLimitHz,
      turboBinsHz, nPhysCores, defaultWorkload, ghz]
  exact not_charges_all_big defaultWorkload_positive rfl hfeasible
    (h _ (by simp [setups, nPhysCores]) hfeasible)

end Rail

end FakeBigLittle
