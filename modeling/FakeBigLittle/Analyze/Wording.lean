import FakeBigLittle.Analyze.Bootstrap
import FakeBigLittle.Analyze.Report

/-!
# The wording of a null result

`contrast` and `experiment_verdict` write about the same record. The sentence of the first names
the minimum detectable effect only where the effect is below it; the line of the second does it
for every interval that includes zero.
-/

namespace FakeBigLittle

open CString Decimal

namespace Analyze

/-! ## Any interval -/

/-- `contrast`, for any interval out of the resampling. -/
def contrastWith (ci : Interval ℚ) (m : Math ℚ) (rng : Random ℚ) (seed : Int)
    (controlRows armRows : List Row) (metric : Text) : ContrastRecord :=
  let a := valuesOf controlRows metric
  let b := valuesOf armRows metric
  let c : ContrastRecord :=
    { metric := metric
      unit := metricUnit metric
      nControl := a.length
      nArm := b.length
      meanControl := mean a
      meanArm := mean b }
  if a.length < 2 ∨ b.length < 2 then { c with sentence := c.insufficientText }
  else
    match mean a, mean b with
    | some mc, some ma =>
      let effect := mde m a b alpha power
      { c with
        diff := some (ma - mc)
        ciLo := ci.lo
        ciHi := ci.hi
        ciMethod := ci.method
        pctChange := share (ma - mc) mc
        hedgesG := hedgesG m a b
        pPerm := permutationP rng a b nPerm seed
        mdeAbs := effect
        mdePct := effect.bind fun e => share e |mc| }.conclude (ma - mc)
    | _, _ => c

theorem contrast_eq (m : Math ℚ) (rng : Random ℚ) (seed : Int) (controlRows armRows : List Row)
    (metric : Text) :
    contrast m rng seed controlRows armRows metric =
      contrastWith (diffCi m rng (valuesOf controlRows metric) (valuesOf armRows metric) seed) m rng
        seed controlRows armRows metric := rfl

/-! ## What is stated -/

def belowMde : Text := "|effect| < MDE".toList

/-- The text states it, behind the name that it starts with. -/
def States (name text : Text) : Prop := belowMde <:+: text.drop name.length

-- Without a bar it is not stated.
def silent (text : Text) : Bool := text.all (· ≠ '|')

theorem not_infix_of_silent {text : Text} (h : silent text = true) : ¬belowMde <:+: text := by
  intro hpart
  have hmem : '|' ∈ belowMde := List.mem_cons_self
  have hbar := List.all_eq_true.mp h '|' (hpart.subset hmem)
  simp at hbar

theorem silent_flatten {texts : List Text} (h : ∀ t ∈ texts, silent t = true) :
    silent texts.flatten = true := by
  unfold silent
  rw [List.all_flatten]
  exact List.all_eq_true.mpr h

theorem silent_of_numeral {text : Text} (h : ∀ c ∈ text, IsNumeral c) : silent text = true := by
  apply List.all_eq_true.mpr
  intro c hc
  apply decide_eq_true
  rintro rfl
  rcases h '|' hc with hdigit | hsign
  · exact absurd hdigit (by decide)
  · simp at hsign

theorem silent_digits (n : Nat) : silent (Nat.toDigits 10 n) = true :=
  silent_of_numeral fun _ hc => digits_isNumeral hc

theorem silent_fixed (d : Nat) (x : ℚ) : silent (fixed d x) = true :=
  silent_of_numeral fun _ hc => fixed_isNumeral hc

theorem silent_fmt (x : Option ℚ) (prec : Nat) : silent (fmt x prec) = true := by
  unfold fmt
  cases x with
  | none => rfl
  | some v =>
    simp only
    split_ifs
    · exact silent_of_numeral fun _ hc => scientific_isNumeral hc
    · exact silent_fixed 1 v
    · exact silent_fixed 2 v
    · exact silent_fixed prec v

theorem silent_pct (x : ℚ) : silent (pct x) = true := by
  unfold pct silent
  rw [List.all_append, Bool.and_eq_true]
  exact ⟨silent_fixed 1 x, rfl⟩

theorem silent_signedPct (x : Option ℚ) : silent (signedPct x) = true := by
  unfold signedPct
  cases x with
  | none => rfl
  | some v =>
    unfold silent
    rw [Option.map_some, Option.getD_some, List.all_append, Bool.and_eq_true]
    exact ⟨silent_of_numeral fun _ hc => signed_isNumeral hc, rfl⟩

/-- No unit of the table has a bar. -/
theorem silent_metricUnit (metric : Text) : silent (metricUnit metric) = true := by
  have htable : ∀ m ∈ metricTable, silent m.unit = true :=
    List.all_eq_true.mp (rfl : metricTable.all (silent ·.unit) = true)
  unfold metricUnit metricOf
  cases hfind : metricTable.find? fun m => m.column = metric with
  | none => rfl
  | some found => exact htable found (List.mem_of_find?_eq_some hfind)

theorem states_flatten (name : Text) (texts : List Text) :
    States name (name :: texts).flatten ↔ belowMde <:+: texts.flatten := by
  unfold States
  rw [List.flatten_cons, List.drop_left]

theorem not_states_flatten (name : Text) {texts : List Text} (h : ∀ t ∈ texts, silent t = true) :
    ¬States name (name :: texts).flatten := by
  rw [states_flatten]
  exact not_infix_of_silent (silent_flatten h)

/-! ## The sentence of the contrast -/

section Sentence

variable {c : ContrastRecord} {diff : ℚ}

/-- The effect is there, and below what the design can detect. -/
def BelowMde (c : ContrastRecord) : Prop :=
  ∃ diff effect, c.diff = some diff ∧ c.mdeAbs = some effect ∧ |diff| < effect

theorem silent_ofControl (c : ContrastRecord) : silent c.ofControl = true := by
  unfold ContrastRecord.ofControl
  cases c.mdePct with
  | none => rfl
  | some p =>
    apply silent_flatten
    simp only [List.forall_mem_cons]
    exact ⟨rfl, silent_pct p, rfl, by simp⟩

theorem states_belowMdeText (c : ContrastRecord) : States c.metric c.belowMdeText := by
  unfold ContrastRecord.belowMdeText
  rw [states_flatten, List.flatten_cons]
  apply List.IsInfix.trans _ (List.prefix_append _ _).isInfix
  exact ⟨": no detectable difference (".toList, " = ".toList, rfl⟩

theorem not_states_includesZeroText (hunit : silent c.unit = true) :
    ¬States c.metric c.includesZeroText := by
  unfold ContrastRecord.includesZeroText
  apply not_states_flatten
  simp only [List.forall_mem_cons]
  refine ⟨rfl, silent_fmt _ _, rfl, silent_fmt _ _, rfl,
    hunit, rfl, silent_fmt _ _, rfl, hunit, silent_ofControl c,
    rfl, by simp⟩

theorem silent_direction (diff : ℚ) : silent (ContrastRecord.direction diff) = true := by
  unfold ContrastRecord.direction
  split_ifs <;> rfl

theorem not_states_excludesZeroText (hunit : silent c.unit = true) (diff : ℚ) :
    ¬States c.metric (c.excludesZeroText diff) := by
  unfold ContrastRecord.excludesZeroText
  apply not_states_flatten
  simp only [List.forall_mem_cons]
  refine ⟨rfl, silent_direction diff, rfl, silent_fmt _ _,
    rfl, hunit, rfl, silent_signedPct _, rfl,
    silent_fmt _ _, rfl, silent_fmt _ _, rfl, silent_fmt _ _,
    rfl, silent_fmt _ _, rfl, silent_fmt _ _, rfl,
    hunit, rfl, by simp⟩

theorem not_states_insufficientText (c : ContrastRecord) :
    ¬States c.metric c.insufficientText := by
  unfold ContrastRecord.insufficientText
  apply not_states_flatten
  simp only [List.forall_mem_cons]
  exact ⟨rfl, silent_digits _, rfl, silent_digits _,
    rfl, by simp⟩

/-- The sentence compares the two numbers. -/
theorem states_sentence_iff (hunit : silent c.unit = true) (hdiff : c.diff = some diff) :
    States c.metric (c.conclude diff).sentence ↔ c.straddles = true ∧ BelowMde c := by
  have hbelow : (c.mdeAbs.any fun m => |diff| < m) = true ↔ BelowMde c := by
    unfold BelowMde
    rw [hdiff]
    cases c.mdeAbs with
    | none => simp
    | some effect => simp
  unfold ContrastRecord.conclude
  cases hstraddles : c.straddles with
  | false => simpa using not_states_excludesZeroText hunit diff
  | true =>
    simp only [if_true, true_and]
    rw [← hbelow]
    split_ifs with hany
    · exact iff_of_true (states_belowMdeText c) hany
    · exact iff_of_false (not_states_includesZeroText hunit) hany

end Sentence

/-! ## The line of the verdict -/

section Line

variable {e : Erec} {c : ContrastRecord} {diff : ℚ}

/-- The line about the contrast itself. -/
def line (e : Erec) (c : ContrastRecord) : Text := (contrastLines e c).headD []

theorem states_noDifferenceText (e : Erec) (c : ContrastRecord) :
    States (versus e c) (noDifferenceText e c) := by
  unfold noDifferenceText
  rw [states_flatten, List.flatten_cons]
  apply List.IsInfix.trans _ (List.prefix_append _ _).isInfix
  exact ⟨": no detectable difference in energy-to-solution (".toList, " = ".toList,
    rfl⟩

theorem not_states_differenceText (e : Erec) (c : ContrastRecord) (diff : ℚ) :
    ¬States (versus e c) (differenceText e c diff) := by
  unfold differenceText
  apply not_states_flatten
  simp only [List.forall_mem_cons]
  refine ⟨rfl, ?_, rfl, silent_fmt _ _, rfl,
    silent_pct _, rfl, silent_fmt _ _, rfl, silent_fmt _ _,
    rfl, silent_fmt _ _, rfl, silent_fmt _ _, rfl,
    by simp⟩
  split_ifs <;> rfl

/-- The line only looks at whether there is a detectable difference. -/
theorem states_line_iff (e : Erec) (c : ContrastRecord) :
    States (versus e c) (line e c) ↔ c.diff ≠ none ∧ c.detectable ≠ some true := by
  unfold line contrastLines
  cases hdiff : c.diff with
  | none =>
    have hsilent : ¬States (versus e c)
        [versus e c, ": insufficient data for an energy contrast.".toList].flatten := by
      apply not_states_flatten
      simp only [List.forall_mem_cons]
      exact ⟨rfl, by simp⟩
    simpa using hsilent
  | some diff =>
    by_cases hdetectable : c.detectable = some true
    · simpa [hdetectable] using not_states_differenceText e c diff
    · simpa [hdetectable] using states_noDifferenceText e c

end Line

/-! ## Both -/

/-- The two texts about a contrast state the comparison only where it is so, and together. -/
structure Backed (e : Erec) (c : ContrastRecord) : Prop where
  sentence : States c.metric c.sentence → BelowMde c
  line : c.metric = headlineMetric → States (versus e c) (line e c) → BelowMde c
  agree : c.metric = headlineMetric →
    (States c.metric c.sentence ↔ States (versus e c) (Analyze.line e c))

-- `c["arm"], c["control_arm"] = arm, control`
def ContrastRecord.named (c : ContrastRecord) (arm controlArm : Text) : ContrastRecord :=
  { c with arm := arm, controlArm := controlArm }

section Both

variable {e : Erec} {c : ContrastRecord} {diff : ℚ}

/-- What each text looks at decides it. -/
theorem backed_iff_of_states {straddles : Prop}
    (hsentence : States c.metric c.sentence ↔ straddles ∧ BelowMde c)
    (hline : States (versus e c) (line e c) ↔ straddles) :
    Backed e c ↔ c.metric ≠ headlineMetric ∨ ¬straddles ∨ BelowMde c := by
  constructor
  · intro hbacked
    by_cases hhead : c.metric = headlineMetric
    · by_cases hstraddles : straddles
      · exact Or.inr (Or.inr (hbacked.line hhead (hline.mpr hstraddles)))
      · exact Or.inr (Or.inl hstraddles)
    · exact Or.inl hhead
  · intro hcondition
    have hneeded : c.metric = headlineMetric → straddles → BelowMde c := by
      intro hhead hstraddles
      rcases hcondition with hother | hexcludes | hless
      · exact absurd hhead hother
      · exact absurd hstraddles hexcludes
      · exact hless
    constructor
    · intro hstates
      exact (hsentence.mp hstates).2
    · intro hhead hstates
      exact hneeded hhead (hline.mp hstates)
    · intro hhead
      rw [hsentence, hline]
      exact ⟨And.left, fun hstraddles => ⟨hstraddles, hneeded hhead hstraddles⟩⟩

theorem conclude_kept (c : ContrastRecord) (diff : ℚ) :
    (c.conclude diff).metric = c.metric ∧ (c.conclude diff).diff = c.diff ∧
      (c.conclude diff).mdeAbs = c.mdeAbs ∧
      (c.conclude diff).detectable = some !c.straddles := by
  unfold ContrastRecord.conclude
  cases hstraddles : c.straddles <;> simp

theorem backed_conclude (e : Erec) (arm controlArm : Text) (hunit : silent c.unit = true)
    (hdiff : c.diff = some diff) :
    Backed e ((c.conclude diff).named arm controlArm) ↔
      c.metric ≠ headlineMetric ∨ ¬c.straddles = true ∨ BelowMde c := by
  obtain ⟨hmetric, hkept, hmde, hdetectable⟩ := conclude_kept c diff
  have hbelow : BelowMde ((c.conclude diff).named arm controlArm) ↔ BelowMde c := by
    unfold BelowMde
    rw [show ((c.conclude diff).named arm controlArm).diff = c.diff from hkept,
      show ((c.conclude diff).named arm controlArm).mdeAbs = c.mdeAbs from hmde]
  have hline := states_line_iff e ((c.conclude diff).named arm controlArm)
  rw [show ((c.conclude diff).named arm controlArm).diff = some diff from hkept.trans hdiff,
    show ((c.conclude diff).named arm controlArm).detectable = some !c.straddles from hdetectable]
    at hline
  have hname : ((c.conclude diff).named arm controlArm).metric = c.metric := hmetric
  have hsentence := states_sentence_iff hunit hdiff
  rw [← hbelow, ← hname] at hsentence ⊢
  exact backed_iff_of_states hsentence (hline.trans (by simp))

variable (ci : Interval ℚ) (m : Math ℚ) (rng : Random ℚ) (seed : Int)
  (controlRows armRows : List Row) (metric : Text)

theorem contrastWith_short
    (h : (valuesOf controlRows metric).length < 2 ∨ (valuesOf armRows metric).length < 2) :
    let c := contrastWith ci m rng seed controlRows armRows metric
    c.diff = none ∧ c.sentence = c.insufficientText := by
  unfold contrastWith
  rw [if_pos h]
  exact ⟨rfl, rfl⟩

theorem contrastWith_long
    (h : ¬((valuesOf controlRows metric).length < 2 ∨ (valuesOf armRows metric).length < 2)) :
    let a := valuesOf controlRows metric
    let b := valuesOf armRows metric
    ∃ c : ContrastRecord,
      contrastWith ci m rng seed controlRows armRows metric = c.conclude (diffOfMeans a b) ∧
        c.metric = metric ∧ c.unit = metricUnit metric ∧ c.diff = some (diffOfMeans a b) ∧
        c.ciLo = ci.lo ∧ c.ciHi = ci.hi ∧ c.mdeAbs = mde m a b alpha power := by
  intro a b
  have hmean : ∀ xs : List ℚ, ¬xs.length < 2 → mean xs = some (xs.sum / xs.length) := by
    intro xs hxs
    unfold mean
    rw [if_neg]
    rintro rfl
    exact hxs (by simp)
  obtain ⟨ha, hb⟩ := not_or.mp h
  unfold contrastWith
  rw [if_neg h, hmean _ ha, hmean _ hb]
  exact ⟨_, rfl, rfl, rfl, rfl, rfl, rfl, rfl⟩

/-- With enough values on both sides the interval and the effect decide. -/
theorem backed_long (e : Erec) (arm controlArm : Text)
    (hshort : ¬((valuesOf controlRows metric).length < 2 ∨ (valuesOf armRows metric).length < 2)) :
    let a := valuesOf controlRows metric
    let b := valuesOf armRows metric
    Backed e ((contrastWith ci m rng seed controlRows armRows metric).named arm controlArm) ↔
      metric ≠ headlineMetric ∨
        (∃ lo hi, ci.lo = some lo ∧ ci.hi = some hi ∧ (0 < lo ∨ hi < 0)) ∨
        ∃ effect, mde m a b alpha power = some effect ∧ |diffOfMeans a b| < effect := by
  intro a b
  obtain ⟨c, hrecord, rfl, hunit, hdiff, hlo, hhi, hmde⟩ :=
    contrastWith_long ci m rng seed controlRows armRows metric hshort
  have hstraddles : ¬c.straddles = true ↔
      ∃ lo hi, ci.lo = some lo ∧ ci.hi = some hi ∧ (0 < lo ∨ hi < 0) := by
    unfold ContrastRecord.straddles
    rw [hlo, hhi]
    cases ci.lo with
    | none => simp
    | some lo =>
      cases ci.hi with
      | none => simp
      | some hi => simp [imp_iff_not_or]
  have hbelow : BelowMde c ↔
      ∃ effect, mde m a b alpha power = some effect ∧ |diffOfMeans a b| < effect := by
    unfold BelowMde
    rw [hdiff, hmde]
    constructor
    · rintro ⟨diff, effect, hd, heffect, hlt⟩
      rw [← Option.some.inj hd] at hlt
      exact ⟨effect, heffect, hlt⟩
    · rintro ⟨effect, heffect, hlt⟩
      exact ⟨_, effect, rfl, heffect, hlt⟩
  rw [hrecord, backed_conclude e arm controlArm (hunit ▸ silent_metricUnit c.metric) hdiff,
    hstraddles, hbelow]

/-- **The texts are backed unless the interval includes zero and the effect is not below.** -/
theorem backed_iff (e : Erec) (arm controlArm : Text) :
    let a := valuesOf controlRows metric
    let b := valuesOf armRows metric
    Backed e ((contrastWith ci m rng seed controlRows armRows metric).named arm controlArm) ↔
      metric ≠ headlineMetric ∨ a.length < 2 ∨ b.length < 2 ∨
        (∃ lo hi, ci.lo = some lo ∧ ci.hi = some hi ∧ (0 < lo ∨ hi < 0)) ∨
        ∃ effect, mde m a b alpha power = some effect ∧ |diffOfMeans a b| < effect := by
  intro a b
  by_cases hshort : a.length < 2 ∨ b.length < 2
  · obtain ⟨hdiff, hsentence⟩ :=
      contrastWith_short ci m rng seed controlRows armRows metric hshort
    have hsilent := not_states_insufficientText
      ((contrastWith ci m rng seed controlRows armRows metric).named arm controlArm)
    have hline := states_line_iff e
      ((contrastWith ci m rng seed controlRows armRows metric).named arm controlArm)
    rw [show ((contrastWith ci m rng seed controlRows armRows metric).named arm controlArm).diff =
      none from hdiff] at hline
    have hfalse : States
        ((contrastWith ci m rng seed controlRows armRows metric).named arm controlArm).metric
        ((contrastWith ci m rng seed controlRows armRows metric).named arm controlArm).sentence ↔
        False ∧ BelowMde
          ((contrastWith ci m rng seed controlRows armRows metric).named arm controlArm) := by
      refine iff_of_false ?_ And.left
      intro hstates
      rw [show ((contrastWith ci m rng seed controlRows armRows metric).named arm
        controlArm).sentence = _ from hsentence] at hstates
      exact hsilent hstates
    have hbacked := (backed_iff_of_states hfalse (by simpa using hline)).mpr
      (Or.inr (Or.inl not_false))
    refine iff_of_true hbacked (Or.inr ?_)
    rcases hshort with hcontrol | harm
    · exact Or.inl hcontrol
    · exact Or.inr (Or.inl harm)
  · obtain ⟨hcontrol, harm⟩ := not_or.mp hshort
    simp only [backed_long ci m rng seed controlRows armRows metric e arm controlArm hshort,
      hcontrol, harm, false_or]
    rfl

end Both

def tenJoules (arm : Text) : Row where
  file := []
  experiment := "e3-ab".toList
  arm := arm
  rep := none
  timestamp := none
  sched := none
  eppMode := none
  strict := none
  ok := some true
  exitCode := some 0
  onAc := "True".toList
  partitionedEpp := false
  smtPairsSplit := 0
  pingerPresent := false
  spinPresent := false
  blsPresent := false
  col := fun column => if column = headlineMetric then some 10 else none

def sameArms : Arms :=
  [("control".toList, List.replicate 2 (tenJoules "control".toList)),
    ("scx-flat".toList, List.replicate 2 (tenJoules "scx-flat".toList))]

theorem mde_flat : mde flatMath [10, 10] [10, 10] alpha power = some 0 := by
  have hppf : ∀ p, ∃ t, tPpf flatMath p 2 = some t := fun p => ⟨_, if_neg (by decide)⟩
  obtain ⟨tcrit, htcrit⟩ := hppf (1 - alpha / (2 : Nat))
  obtain ⟨tpow, htpow⟩ := hppf power
  have hpooled : pooledSd flatMath [10, 10] [10, 10] = some 0 := by decide +kernel
  have hmde : mde flatMath [10, 10] [10, 10] alpha power =
      (pooledSd flatMath [10, 10] [10, 10]).bind fun sp =>
        (tPpf flatMath (1 - alpha / (2 : Nat)) 2).bind fun tcrit =>
          (tPpf flatMath power 2).bind fun tpow =>
            some ((tcrit + tpow) * sp * flatMath.sqrt (1 / (2 : Nat) + 1 / (2 : Nat))) :=
    if_neg (by decide)
  rw [hmde, hpooled, htcrit, htpow]
  simp

/-- Nothing varies, and the effect is as large as what can be detected: both are zero. -/
theorem backed_fails :
    ¬Backed (experimentRecord flatMath quarters 0 "e3-ab".toList sameArms)
      ((contrastWith ⟨some 0, some 0, some 0, some .percentile, nBoot⟩ flatMath quarters 0
        (List.replicate 2 (tenJoules "control".toList))
        (List.replicate 2 (tenJoules "scx-flat".toList)) headlineMetric).named
          "scx-flat".toList "control".toList) := by
  have hvalues : ∀ arm, valuesOf (List.replicate 2 (tenJoules arm)) headlineMetric = [10, 10] := by
    intro arm
    simp [valuesOf, tenJoules, List.replicate]
  have hlong : ∀ arm, ¬(valuesOf (List.replicate 2 (tenJoules arm)) headlineMetric).length < 2 := by
    intro arm
    rw [hvalues]
    decide
  intro hbacked
  have hcondition := (backed_long _ _ _ _ _ _ _ _ _ _
    (not_or.mpr ⟨hlong _, hlong _⟩)).mp hbacked
  simp only [hvalues, mde_flat] at hcondition
  rcases hcondition with hother | ⟨lo, hi, hlo, hhi, hexcludes⟩ | ⟨effect, heffect, hless⟩
  · exact hother rfl
  · obtain rfl := Option.some.inj hlo
    obtain rfl := Option.some.inj hhi
    simp at hexcludes
  · obtain rfl := Option.some.inj heffect
    exact absurd hless (not_lt.mpr (abs_nonneg _))

end Analyze

end FakeBigLittle
