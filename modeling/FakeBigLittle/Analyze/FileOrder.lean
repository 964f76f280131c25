import FakeBigLittle.Analyze.Report

/-!
# The order of the files

Two permutations of the rows are grouped alike, and every list that the analysis goes through in
the order of insertion is only counted, searched or compared. What is left of the order is which
of two equal extremes a gate names in its detail.
-/

namespace FakeBigLittle

open CString Dict

namespace Analyze

/-! ## What is compared -/

/-- A gate without its detail. -/
def Gate.bare (g : Gate) : Gate := { g with detail := [] }

def Erec.bare (e : Erec) : Erec := { e with gates := e.gates.map Gate.bare }

def Analysis.bare (a : Analysis) : Analysis := { a with experiments := a.experiments.map Erec.bare }

theorem failed_bare (e : Erec) : e.bare.failed = e.failed := by
  have hgates : ∀ gates : List Gate,
      ((gates.map Gate.bare).filter fun g => g.status = .fail).map Gate.name =
        (gates.filter fun g => g.status = .fail).map Gate.name := by
    intro gates
    rw [List.filter_map, List.map_map]
    rfl
  unfold Erec.failed
  rw [List.filter_append, List.filter_append, List.map_append, List.map_append]
  exact congrArg (· ++ _) (hgates e.gates)

theorem experimentVerdict_bare (e : Erec) : experimentVerdict e.bare = experimentVerdict e := by
  have hlines : contrastLines e.bare = contrastLines e := by
    funext c
    unfold contrastLines inadmissibleText
    rw [failed_bare]
    rfl
  unfold experimentVerdict
  rw [failed_bare, hlines]
  rfl

theorem withVerdict_bare {e e' : Erec} (h : e.bare = e'.bare) :
    e.withVerdict.bare = e'.withVerdict.bare := by
  have hverdict : experimentVerdict e = experimentVerdict e' := by
    rw [← experimentVerdict_bare, h, experimentVerdict_bare]
  have hshape : ∀ e : Erec, e.withVerdict.bare = { e.bare with verdict := experimentVerdict e } :=
    fun _ => rfl
  rw [hshape, hshape, h, hverdict]

theorem reported_bare (e : Erec) : e.bare.reported = e.reported := by
  unfold Erec.reported Erec.bare
  rw [List.map_map]
  rfl

/-! ## Lists in another order -/

section Extremes

variable {α β : Type} [LinearOrder β] {xs ys : List α} {f : α → β}

theorem argmax_perm (h : xs.Perm ys) : (xs.argmax f).map f = (ys.argmax f).map f := by
  cases hx : xs.argmax f with
  | none =>
    obtain rfl := List.argmax_eq_none.mp hx
    rw [List.nil_perm.mp h]
    rfl
  | some x =>
    cases hy : ys.argmax f with
    | none =>
      obtain rfl := List.argmax_eq_none.mp hy
      rw [List.perm_nil.mp h] at hx
      exact absurd hx (by simp)
    | some y =>
      have hle := List.le_of_mem_argmax (h.mem_iff.mp (List.argmax_mem hx)) hy
      have hge := List.le_of_mem_argmax (h.mem_iff.mpr (List.argmax_mem hy)) hx
      exact congrArg some (le_antisymm hle hge)

theorem argmin_perm (h : xs.Perm ys) : (xs.argmin f).map f = (ys.argmin f).map f :=
  argmax_perm (β := βᵒᵈ) h

omit [LinearOrder β] in
theorem filter_ne_nil_perm (h : xs.Perm ys) (p : α → Bool) :
    xs.filter p ≠ [] ↔ ys.filter p ≠ [] := by
  have hperm := h.filter p
  constructor
  · intro hne heq
    exact hne (List.perm_nil.mp (heq ▸ hperm))
  · intro hne heq
    exact hne (List.nil_perm.mp (heq ▸ hperm))

end Extremes

/-! ## The gates -/

section Gates

variable {rows rows' : List Row} {arms arms' : Arms}

theorem completionGate_perm (h : rows.Perm rows') :
    (completionGate rows).bare = (completionGate rows').bare := by
  have hok := filter_ne_nil_perm h fun r => r.ok ≠ some true
  have hexit := filter_ne_nil_perm h fun r => r.exitCode ≠ some 0
  unfold completionGate
  simp only [hok, hexit]
  split_ifs <;> rfl

/-- The gate looks at the extremes, and at how many arms are known. -/
theorem temperatureGate_bare (arms : Arms) :
    (temperatureGate arms).bare =
      ⟨"start temperature spread".toList,
        match ((startTemps arms).argmax Prod.snd).map Prod.snd,
          ((startTemps arms).argmin Prod.snd).map Prod.snd with
        | some hot, some cold =>
          if (startTemps arms).length < 2 then .skip
          else failIf (maxStartTempSpreadC ≤ hot - cold)
        | _, _ => .skip, []⟩ := by
  unfold temperatureGate
  simp only
  cases (startTemps arms).argmax Prod.snd with
  | none => rfl
  | some hot =>
    cases (startTemps arms).argmin Prod.snd with
    | none => rfl
    | some cold =>
      simp only [Option.map_some]
      split_ifs <;> rfl

theorem temperatureGate_perm (h : arms.Perm arms') :
    (temperatureGate arms).bare = (temperatureGate arms').bare := by
  have htemps : (startTemps arms).Perm (startTemps arms') := h.filterMap _
  rw [temperatureGate_bare, temperatureGate_bare, argmax_perm htemps, argmin_perm htemps,
    htemps.length_eq]

theorem acGate_bare (arms : Arms) :
    (acGate arms).bare =
      ⟨"on_ac consistent".toList, failIf ((keys (acStates arms)).length ≠ 1), []⟩ := by
  unfold acGate
  simp only
  split
  · rename_i hone
    rw [hone]
    rfl
  · rename_i hmany
    have hne : (keys (acStates arms)).length ≠ 1 := by
      intro hlen
      unfold keys at hlen
      rw [List.length_map] at hlen
      obtain ⟨e, he⟩ := List.length_eq_one_iff.mp hlen
      exact hmany _ _ he
    simp only [hne, ne_eq, not_false_eq_true, decide_true]
    rfl

theorem acGate_perm (h : arms.Perm arms') : (acGate arms).bare = (acGate arms').bare := by
  have hkeys : (keys (acStates arms)).Perm (keys (acStates arms')) :=
    keys_collect_perm (h.flatMap_right _)
  rw [acGate_bare, acGate_bare, hkeys.length_eq]

theorem thermalGate_bare (rows : List Row) :
    (thermalGate rows).bare = ⟨"thermal headroom".toList,
      if ((cmaxOf rows).argmax Prod.snd).map Prod.snd = none then .skip
      else failIf ((cmaxOf rows).filter (fun e => tjmaxC - throttleMarginC ≤ e.2) ≠ []), []⟩ := by
  unfold thermalGate
  simp only
  cases (cmaxOf rows).argmax Prod.snd with
  | none => rfl
  | some worst => rfl

theorem thermalGate_perm (h : rows.Perm rows') :
    (thermalGate rows).bare = (thermalGate rows').bare := by
  have hcmax : (cmaxOf rows).Perm (cmaxOf rows') := h.filterMap _
  have hnear := filter_ne_nil_perm hcmax fun e => tjmaxC - throttleMarginC ≤ e.2
  rw [thermalGate_bare, thermalGate_bare, argmax_perm hcmax]
  simp only [hnear]

theorem driftGate_bare (arms : Arms) (drift : List Drift) :
    (driftGate arms drift).bare = ⟨"run-order drift".toList, failIf (drift ≠ []), []⟩ := by
  unfold driftGate
  simp only
  split_ifs with hdrift
  · simp only [hdrift, ne_eq, not_false_eq_true, decide_true]
    rfl
  · simp only [hdrift, decide_false]
    rfl

/-- The arms are counted in sorted order, and so is the drift. -/
theorem qualityGates_alike (m : Math ℚ) (h : Alike arms arms') (metrics : List Text) :
    (qualityGates m arms metrics).1.map Gate.bare = (qualityGates m arms' metrics).1.map Gate.bare ∧
      (qualityGates m arms metrics).2 = (qualityGates m arms' metrics).2 := by
  have hrows : (rowsOf arms).Perm (rowsOf arms') := (h.perm.map Prod.snd).flatten
  have hdrift : driftOf m arms metrics = driftOf m arms' metrics := by
    unfold driftOf
    rw [h.sortedItems]
  have hbalance : balanceGate arms = balanceGate arms' := by
    unfold balanceGate
    rw [h.sortedItems]
  refine ⟨?_, hdrift⟩
  unfold qualityGates
  simp only [List.map_cons, List.map_nil]
  rw [completionGate_perm hrows, temperatureGate_perm h.perm, acGate_perm h.perm,
    thermalGate_perm hrows, hbalance, driftGate_bare, driftGate_bare, hdrift]

end Gates

/-! ## The record of an experiment -/

section Record

variable {rows rows' : List Row} {arms arms' : Arms}

theorem coverage_perm (h : rows.Perm rows') : coverage rows = coverage rows' := by
  unfold coverage
  simp only [h.length_eq, h.countP_eq]

theorem availableMetrics_perm (h : rows.Perm rows') :
    availableMetrics rows = availableMetrics rows' := by
  unfold availableMetrics
  simp only [h.any_eq]

theorem armRows_alike (h : Alike arms arms') : armRows arms = armRows arms' := by
  funext a
  unfold armRows
  rw [h.get]

theorem pickControl_alike (h : Alike arms arms') : pickControl arms = pickControl arms' := by
  unfold pickControl
  rw [h.sortedKeys, armRows_alike h]

theorem placementSanity_alike (h : Alike arms arms') :
    placementSanity arms = placementSanity arms' := by
  unfold placementSanity
  rw [h.sortedItems]

theorem frequencyDivergence_alike (m : Math ℚ) (rng : Random ℚ) (seed : Int)
    (h : Alike arms arms') :
    frequencyDivergence m rng seed arms = frequencyDivergence m rng seed arms' := by
  unfold frequencyDivergence
  rw [h.sortedItems]

/-- Arms with the same rows have one record, but for the details of gates. -/
theorem experimentRecord_alike (m : Math ℚ) (rng : Random ℚ) (seed : Int) (exp : Text)
    (h : Alike arms arms') :
    (experimentRecord m rng seed exp arms).bare = (experimentRecord m rng seed exp arms').bare := by
  have hrows : (rowsOf arms).Perm (rowsOf arms') := (h.perm.map Prod.snd).flatten
  have hcontrol := pickControl_alike h
  have harm := armRows_alike h
  have hfrequency := frequencyDivergence_alike m rng 0 h
  obtain ⟨hgates, hdrift⟩ := qualityGates_alike m h (availableMetrics (rowsOf arms'))
  have hcontrasts : ∀ control metrics, contrastsOf m rng seed arms control metrics =
      contrastsOf m rng seed arms' control metrics := by
    intro control metrics
    unfold contrastsOf
    rw [h.sortedKeys, harm]
  unfold experimentRecord Erec.bare
  simp only [hrows.length_eq, availableMetrics_perm hrows, coverage_perm hrows, hcontrol, harm,
    hfrequency, hcontrasts, hdrift, h.sortedKeys, h.sortedItems, placementSanity_alike h,
    List.map_append, hgates]

end Record

/-! ## The groups -/

section Groups

variable {rows rows' : List Row}

/-- With distinct names, two rows never tie. -/
theorem sortRows_perm (h : rows.Perm rows') (hfiles : (rows.map Row.file).Nodup) :
    sortBy rowKey rows = sortBy rowKey rows' := by
  refine sortBy_congr h (List.Nodup.of_map (fun key => (ofLex (ofLex key).2).2) ?_)
  rw [List.map_map]
  exact hfiles

def armsOf (rows : List Row) : Arms := mapValues (sortBy rowKey) (rows.foldl addRow [])

theorem armsOf_alike (h : rows.Perm rows') (hfiles : (rows.map Row.file).Nodup) :
    Alike (armsOf rows) (armsOf rows') := by
  have hlist : ∀ rs : List Row, rs.foldl (fun rs r => rs ++ [r]) [] = rs := by
    intro rs
    rw [List.foldl_append_eq_append, List.nil_append, ← List.flatMap_def, List.flatMap_singleton']
  apply collect_alike _ h
  intro arm
  rw [hlist, hlist]
  refine sortRows_perm (h.filter _) ?_
  exact hfiles.sublist (List.filter_sublist.map Row.file)

theorem get_groupRuns (rows : List Row) (exp : Text) :
    (get (groupRuns rows) exp).getD [] = armsOf (rows.filter fun r => r.experiment = exp) := by
  unfold groupRuns armsOf
  rw [get_mapValues, ← get_collect]
  cases get (collect Row.experiment [] addRow rows) exp <;> rfl

theorem sortedKeys_groupRuns (h : rows.Perm rows') :
    sortedKeys (groupRuns rows) = sortedKeys (groupRuns rows') := by
  unfold sortedKeys groupRuns
  rw [keys_mapValues, keys_mapValues]
  refine sortBy_congr (keys_collect_perm h) ?_
  rw [List.map_id]
  exact nodup_collect rows

end Groups

/-- **The analysis does not depend on the order of the files.** Control arm, summaries, contrasts,
MDE rows, drift, placement, frequencies, statuses of gates, verdicts and headline are the same. -/
theorem analyze_perm (m : Math ℚ) (rng : Random ℚ) (seed : Int) (rows rows' : List Row)
    (hperm : rows.Perm rows') (hfiles : (rows.map Row.file).Nodup) :
    (analyze m rng seed rows).bare = (analyze m rng seed rows').bare := by
  have hrecord : ∀ exp,
      (experimentRecord m rng seed exp ((get (groupRuns rows) exp).getD [])).withVerdict.bare =
        (experimentRecord m rng seed exp
          ((get (groupRuns rows') exp).getD [])).withVerdict.bare := by
    intro exp
    rw [get_groupRuns, get_groupRuns]
    apply withVerdict_bare
    apply experimentRecord_alike
    apply armsOf_alike (hperm.filter _)
    exact hfiles.sublist (List.filter_sublist.map Row.file)
  have hheadline : ∀ es : List Erec,
      es.map Erec.reported = (es.map Erec.bare).map Erec.reported := by
    intro es
    rw [List.map_map]
    exact List.map_congr_left fun e _ => (reported_bare e).symm
  have hexperiments : (analyze m rng seed rows).experiments.map Erec.bare =
      (analyze m rng seed rows').experiments.map Erec.bare := by
    unfold analyze
    simp only [List.map_map]
    rw [sortedKeys_groupRuns hperm]
    exact List.map_congr_left fun exp _ => hrecord exp
  have hshape : ∀ rows, (analyze m rng seed rows).bare =
      ⟨(analyze m rng seed rows).experiments.map Erec.bare, coverage rows, rows.length,
        overallHeadline
          (((analyze m rng seed rows).experiments.map Erec.bare).map Erec.reported)⟩ := by
    intro rows
    rw [← hheadline]
    rfl
  rw [hshape, hshape, hexperiments, coverage_perm hperm, hperm.length_eq]

-- A run with an energy, and a generator and a library that it has no use for.
def oneRun (file arm : String) (energy : ℚ) : Row where
  file := file.toList
  experiment := "e3-ab".toList
  arm := arm.toList
  rep := some 0
  timestamp := none
  sched := some "eevdf".toList
  eppMode := some "flat".toList
  strict := none
  ok := some true
  exitCode := some 0
  onAc := "True".toList
  partitionedEpp := false
  smtPairsSplit := 0
  pingerPresent := false
  spinPresent := false
  blsPresent := false
  col := fun column => if column = headlineMetric then some energy else none

def firstDraw : Random ℚ where
  State := Unit
  seed _ := ()
  random _ := (0, ())
  randbelow _ _ := (0, ())
  random_mem _ := ⟨le_refl 0, one_pos⟩
  randbelow_lt _ _ h := h

def noLibrary : Math ℚ := ⟨id, id, id, id, id, id, fun x _ => x, 3⟩

/-- Two arms, found in either order. -/
theorem analyze_perm_two :
    (analyze noLibrary firstDraw 0 [oneRun "b.json" "scx" 21, oneRun "a.json" "control" 20]).bare =
      (analyze noLibrary firstDraw 0
        [oneRun "a.json" "control" 20, oneRun "b.json" "scx" 21]).bare :=
  analyze_perm noLibrary firstDraw 0 _ _ (List.Perm.swap _ _ _) (by decide)

end Analyze

end FakeBigLittle
