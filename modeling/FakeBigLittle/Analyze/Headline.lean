import FakeBigLittle.CString
import FakeBigLittle.Decimal
import Mathlib.Data.List.MinMax

/-!
# The headline

`overall_headline` of `scripts/analyze.py`: three lists out of the contrasts of all experiments,
and the sentences that they select.
-/

namespace FakeBigLittle

open CString

namespace Analyze

/-! ## The analysis that is reported -/

inductive Status where
  | pass
  | fail
  | skip
  | info
  deriving DecidableEq

/-- What the headline reads of a contrast. `none` is `None`. -/
structure Contrast where
  metric : Text
  arm : Text
  diff : Option ℚ
  pctChange : Option ℚ
  mdePct : Option ℚ
  detectable : Option Bool

structure Experiment where
  experiment : Text
  gates : List Status
  placementGates : List Status
  contrasts : List Contrast

def headlineMetric : Text := "energy_to_solution_j".toList

def gateFail (e : Experiment) : Bool :=
  e.gates.any (· = .fail) || e.placementGates.any (· = .fail)

def tag (e : Experiment) (c : Contrast) : Text := e.experiment ++ '/' :: c.arm

/-- The lists of `overall_headline`. -/
structure Tally where
  wins : List (Text × Contrast) := []
  nulls : List (Text × Contrast) := []
  blocked : List (Text × Contrast) := []

def tallyContrast (e : Experiment) (t : Tally) (c : Contrast) : Tally :=
  if c.metric ≠ headlineMetric then t
  else
    match c.diff with
    | none => t
    | some diff =>
      if c.detectable = some true ∧ diff < 0 then
        if gateFail e then { t with blocked := t.blocked ++ [(tag e c, c)] }
        else { t with wins := t.wins ++ [(tag e c, c)] }
      else if c.detectable ≠ some true then { t with nulls := t.nulls ++ [(tag e c, c)] }
      else t

def tallyExperiment (t : Tally) (e : Experiment) : Tally := e.contrasts.foldl (tallyContrast e) t

def tally (experiments : List Experiment) : Tally := experiments.foldl tallyExperiment {}

/-! ## The sentences -/

def pct (x : ℚ) : Text := Decimal.fixed 1 x ++ ['%']

def savingsText (wins : List (Text × Contrast)) : Text :=
  ["A detectable energy saving was found in: ".toList,
    ", ".toList.intercalate (wins.map fun w =>
      w.1 ++ " (".toList ++ pct (w.2.pctChange.getD 0) ++ ")".toList),
    ".".toList].flatten

def cautionText : Text :=
  ["Before believing it, confirm the frequency split was real and that ",
    "placement stayed inside its domain -- a saving from an arm that did ",
    "not actually partition is a saving from something else."].flatMap String.toList

def blockedText (blocked : List (Text × Contrast)) : Text :=
  ["Apparent savings in ".toList, ", ".toList.intercalate (blocked.map (·.1)),
    " are NOT admissible: quality gates failed for ".toList, "those experiments.".toList].flatten

def noSaving : Text := "No detectable energy saving in any arm".toList

def noSavingText (nulls : List (Text × Contrast)) : Text :=
  [noSaving, " (".toList, Nat.toDigits 10 nulls.length, " contrast".toList,
    if nulls.length = 1 then [] else "s".toList, " on ".toList, headlineMetric,
    ", all 95% CIs straddle zero).".toList].flatten

-- `int(POWER * 100)` is 80.
def boundedText (best worst : ℚ) : Text :=
  ["The honest headline is bounded, not zero: with this many reps ".toList,
    "no effect smaller than ".toList, pct best, "-".toList, pct worst,
    " of control energy is detectable at 80% power. A real big.LITTLE-scale saving ".toList,
    "(tens of percent) would have been visible; it was not.".toList].flatten

def noExperimentsText : Text := "No experiments to report.".toList

def noUsable : Text :=
  ["No usable ".toList, headlineMetric, " contrast could be computed".toList].flatten

def noUsableText : Text :=
  [noUsable, " from these runs (every ".toList,
    "experiment lacked either a control arm or the metric itself); see ".toList,
    "the Coverage tables.".toList].flatten

def nullLines (nulls : List (Text × Contrast)) : List Text :=
  let mdes := nulls.filterMap fun w => w.2.mdePct
  noSavingText nulls ::
    match mdes.min?, mdes.max? with
    | some best, some worst => [boundedText best worst]
    | _, _ => []

def linesOf (t : Tally) : List Text :=
  (if t.wins ≠ [] then [savingsText t.wins, cautionText] else []) ++
    (if t.blocked ≠ [] then [blockedText t.blocked] else []) ++
    (if t.nulls ≠ [] ∧ t.wins = [] then nullLines t.nulls else [])

def overallHeadline (experiments : List Experiment) : List Text :=
  let lines := linesOf (tally experiments)
  if experiments = [] then lines ++ [noExperimentsText]
  else if lines = [] then [noUsableText]
  else lines

/-! ## What is tallied -/

/-- A contrast on the headline metric that was computed. -/
inductive Kind where
  | win
  | blocked
  | null
  /-- detectable, and not a saving: on no list -/
  | regression
  deriving DecidableEq

def kind (e : Experiment) (c : Contrast) : Option Kind :=
  if c.metric ≠ headlineMetric then none
  else c.diff.map fun diff =>
    if c.detectable ≠ some true then .null
    else if 0 ≤ diff then .regression
    else if gateFail e then .blocked
    else .win

def Tally.get (t : Tally) : Kind → List (Text × Contrast)
  | .win => t.wins
  | .blocked => t.blocked
  | .null => t.nulls
  | .regression => []

def Occurs (k : Kind) (experiments : List Experiment) : Prop :=
  ∃ e ∈ experiments, ∃ c ∈ e.contrasts, kind e c = some k

theorem tallyContrast_get (e : Experiment) (t : Tally) (c : Contrast) (k : Kind) :
    (tallyContrast e t c).get k =
      t.get k ++ if kind e c = some k ∧ k ≠ .regression then [(tag e c, c)] else [] := by
  unfold tallyContrast kind
  by_cases hmetric : c.metric = headlineMetric
  · rw [if_neg (not_not.mpr hmetric), if_neg (not_not.mpr hmetric)]
    cases hdiff : c.diff with
    | none => simp
    | some diff =>
      by_cases hdetectable : c.detectable = some true
      · rcases lt_or_ge diff 0 with hneg | hpos
        · cases hgate : gateFail e <;> cases k <;>
            simp [hdetectable, hneg, not_le.mpr hneg, Tally.get]
        · cases k <;> simp [hdetectable, hpos, not_lt.mpr hpos, Tally.get]
      · cases k <;> simp [hdetectable, Tally.get]
  · simp [hmetric]

theorem tallyExperiment_get (t : Tally) (e : Experiment) {k : Kind} (hk : k ≠ .regression) :
    (tallyExperiment t e).get k = [] ↔ t.get k = [] ∧ ∀ c ∈ e.contrasts, kind e c ≠ some k := by
  unfold tallyExperiment
  induction e.contrasts generalizing t with
  | nil => simp
  | cons c cs ih =>
    rw [List.foldl_cons, ih, tallyContrast_get]
    by_cases hkind : kind e c = some k
    · simp [hkind, hk]
    · simp [hkind]

theorem foldl_tally_get (t : Tally) (experiments : List Experiment) {k : Kind}
    (hk : k ≠ .regression) :
    (experiments.foldl tallyExperiment t).get k = [] ↔
      t.get k = [] ∧ ¬Occurs k experiments := by
  induction experiments generalizing t with
  | nil => simp [Occurs]
  | cons e experiments ih =>
    rw [List.foldl_cons, ih, tallyExperiment_get t e hk]
    simp [Occurs, and_assoc]

/-- A list is empty when nothing of its kind occurs. -/
theorem tally_get (experiments : List Experiment) {k : Kind} (hk : k ≠ .regression) :
    (tally experiments).get k = [] ↔ ¬Occurs k experiments := by
  unfold tally
  rw [foldl_tally_get _ _ hk]
  cases k <;> simp [Tally.get]

/-! ## What is said -/

/-- Some line starts with the sentence. -/
def Emits (sentence : Text) (experiments : List Experiment) : Prop :=
  ∃ line ∈ overallHeadline experiments, sentence <+: line

/-- A line with another first letter is neither of the two sentences. -/
theorem not_prefix {sentence start : Text} (rest : Text)
    (h : sentence = noSaving ∨ sentence = noUsable) {c : Char} (hc : start.head? = some c)
    (hne : c ≠ 'N') : ¬sentence <+: start ++ rest := by
  have hsentence : sentence.head? = some 'N' := by
    rcases h with rfl | rfl
    · rfl
    · rfl
  rintro ⟨t, ht⟩
  have hheads := congrArg List.head? ht
  rw [List.head?_append, List.head?_append, hsentence, hc] at hheads
  exact hne (Option.some.inj hheads).symm

theorem not_prefix_lines (t : Tally) {sentence : Text}
    (h : sentence = noSaving ∨ sentence = noUsable) :
    ¬sentence <+: savingsText t.wins ∧ ¬sentence <+: cautionText ∧
      ¬sentence <+: blockedText t.blocked ∧ ∀ best worst, ¬sentence <+: boundedText best worst := by
  refine ⟨?_, ?_, ?_, ?_⟩
  · unfold savingsText
    rw [List.flatten_cons]
    exact not_prefix (c := 'A') _ h rfl (by decide)
  · unfold cautionText
    rw [List.flatMap_cons]
    exact not_prefix (c := 'B') _ h rfl (by decide)
  · unfold blockedText
    rw [List.flatten_cons]
    exact not_prefix (c := 'A') _ h rfl (by decide)
  · intro best worst
    unfold boundedText
    rw [List.flatten_cons]
    exact not_prefix (c := 'T') _ h rfl (by decide)

theorem mem_linesOf {t : Tally} {sentence line : Text}
    (h : sentence = noSaving ∨ sentence = noUsable) (hline : line ∈ linesOf t)
    (hstarts : sentence <+: line) : t.nulls ≠ [] ∧ t.wins = [] ∧ line = noSavingText t.nulls := by
  obtain ⟨hsavings, hcaution, hblocked, hbounded⟩ := not_prefix_lines t h
  unfold linesOf at hline
  rcases List.mem_append.mp hline with hline | hline
  · exfalso
    rcases List.mem_append.mp hline with hline | hline
    · split_ifs at hline
      · simp only [List.mem_cons, List.not_mem_nil, or_false] at hline
        rcases hline with rfl | rfl
        · exact hsavings hstarts
        · exact hcaution hstarts
      · simp at hline
    · split_ifs at hline
      · obtain rfl := List.mem_singleton.mp hline
        exact hblocked hstarts
      · simp at hline
  · split_ifs at hline with hnulls
    · refine ⟨hnulls.1, hnulls.2, ?_⟩
      unfold nullLines at hline
      simp only at hline
      rcases List.mem_cons.mp hline with hline | hline
      · exact hline
      · split at hline
        · obtain rfl := List.mem_singleton.mp hline
          exact absurd hstarts (hbounded _ _)
        · simp at hline
    · simp at hline

theorem noSaving_starts (nulls : List (Text × Contrast)) : noSaving <+: noSavingText nulls := by
  unfold noSavingText
  rw [List.flatten_cons]
  exact List.prefix_append _ _

theorem noSavingText_mem {t : Tally} (hnulls : t.nulls ≠ []) (hwins : t.wins = []) :
    noSavingText t.nulls ∈ linesOf t := by
  unfold linesOf nullLines
  rw [if_pos (And.intro hnulls hwins)]
  exact List.mem_append_right _ List.mem_cons_self

theorem mem_overallHeadline {experiments : List Experiment} {line : Text} :
    line ∈ overallHeadline experiments ↔
      line ∈ linesOf (tally experiments) ∨ (experiments = [] ∧ line = noExperimentsText) ∨
        (experiments ≠ [] ∧ linesOf (tally experiments) = [] ∧ line = noUsableText) := by
  unfold overallHeadline
  simp only
  split_ifs with hnone hempty
  · rw [List.mem_append, List.mem_singleton]
    simp [hnone]
  · rw [List.mem_singleton]
    simp [hnone, hempty]
  · simp [hnone, hempty]

theorem emits_noSaving (experiments : List Experiment) :
    Emits noSaving experiments ↔
      (tally experiments).nulls ≠ [] ∧ (tally experiments).wins = [] := by
  constructor
  · rintro ⟨line, hline, hstarts⟩
    rcases mem_overallHeadline.mp hline with hmem | ⟨-, rfl⟩ | ⟨-, -, rfl⟩
    · obtain ⟨hnulls, hwins, -⟩ := mem_linesOf (Or.inl rfl) hmem hstarts
      exact And.intro hnulls hwins
    · exact absurd hstarts (by decide)
    · exact absurd hstarts (by decide)
  · rintro ⟨hnulls, hwins⟩
    have hmem := noSavingText_mem hnulls hwins
    exact ⟨_, mem_overallHeadline.mpr (Or.inl hmem), noSaving_starts _⟩

theorem emits_noUsable (experiments : List Experiment) :
    Emits noUsable experiments ↔ experiments ≠ [] ∧ linesOf (tally experiments) = [] := by
  constructor
  · rintro ⟨line, hline, hstarts⟩
    rcases mem_overallHeadline.mp hline with hmem | ⟨-, rfl⟩ | ⟨hsome, hempty, -⟩
    · obtain ⟨-, -, rfl⟩ := mem_linesOf (Or.inr rfl) hmem hstarts
      -- the two sentences part after their first word
      rcases List.prefix_or_prefix_of_prefix hstarts (noSaving_starts _) with h | h
      · exact absurd h (by decide)
      · exact absurd h (by decide)
    · exact absurd hstarts (by decide)
    · exact And.intro hsome hempty
  · rintro ⟨hsome, hempty⟩
    refine ⟨noUsableText, mem_overallHeadline.mpr (Or.inr (Or.inr ⟨hsome, hempty, rfl⟩)), ?_⟩
    unfold noUsableText
    rw [List.flatten_cons]
    exact List.prefix_append _ _

theorem linesOf_eq_nil (t : Tally) :
    linesOf t = [] ↔ t.wins = [] ∧ t.blocked = [] ∧ t.nulls = [] := by
  unfold linesOf nullLines
  simp only [List.append_eq_nil_iff]
  constructor
  · rintro ⟨⟨hwins, hblocked⟩, hnulls⟩
    split_ifs at hwins hblocked hnulls
    all_goals simp_all
  · rintro ⟨hwins, hblocked, hnulls⟩
    simp [hwins, hblocked, hnulls]

/-! ## Truth -/

/-- A detectable saving, whatever the gates say. -/
def Saving (c : Contrast) : Prop :=
  c.metric = headlineMetric ∧ c.detectable = some true ∧ ∃ diff, c.diff = some diff ∧ diff < 0

def Computed (c : Contrast) : Prop := c.metric = headlineMetric ∧ c.diff ≠ none

/-- What the two sentences say is so. -/
structure Truthful (experiments : List Experiment) : Prop where
  noSaving : Emits noSaving experiments → ¬∃ e ∈ experiments, ∃ c ∈ e.contrasts, Saving c
  noUsable : Emits noUsable experiments → ¬∃ e ∈ experiments, ∃ c ∈ e.contrasts, Computed c

theorem saving_iff (e : Experiment) (c : Contrast) :
    Saving c ↔ kind e c = some .win ∨ kind e c = some .blocked := by
  unfold Saving kind
  cases hdiff : c.diff with
  | none => simp
  | some diff =>
    by_cases hdetectable : c.detectable = some true
    · rcases lt_or_ge diff 0 with hneg | hpos
      · cases hgate : gateFail e <;> simp [hdetectable, hneg, not_le.mpr hneg]
      · simp [hdetectable, hpos, not_lt.mpr hpos]
    · simp [hdetectable]

theorem computed_iff (e : Experiment) (c : Contrast) : Computed c ↔ ∃ k, kind e c = some k := by
  unfold Computed kind
  cases hdiff : c.diff with
  | none => simp
  | some diff => simp

theorem exists_saving (experiments : List Experiment) :
    (∃ e ∈ experiments, ∃ c ∈ e.contrasts, Saving c) ↔
      Occurs .win experiments ∨ Occurs .blocked experiments := by
  constructor
  · rintro ⟨e, he, c, hc, hsaving⟩
    rcases (saving_iff e c).mp hsaving with hkind | hkind
    · exact Or.inl ⟨e, he, c, hc, hkind⟩
    · exact Or.inr ⟨e, he, c, hc, hkind⟩
  · rintro (⟨e, he, c, hc, hkind⟩ | ⟨e, he, c, hc, hkind⟩)
    · exact ⟨e, he, c, hc, (saving_iff e c).mpr (Or.inl hkind)⟩
    · exact ⟨e, he, c, hc, (saving_iff e c).mpr (Or.inr hkind)⟩

theorem exists_computed (experiments : List Experiment) :
    (∃ e ∈ experiments, ∃ c ∈ e.contrasts, Computed c) ↔ ∃ k, Occurs k experiments := by
  constructor
  · rintro ⟨e, he, c, hc, hcomputed⟩
    obtain ⟨k, hkind⟩ := (computed_iff e c).mp hcomputed
    exact ⟨k, e, he, c, hc, hkind⟩
  · rintro ⟨k, e, he, c, hc, hkind⟩
    exact ⟨e, he, c, hc, (computed_iff e c).mpr ⟨k, hkind⟩⟩

theorem tally_kinds (experiments : List Experiment) :
    ((tally experiments).wins = [] ↔ ¬Occurs .win experiments) ∧
      ((tally experiments).blocked = [] ↔ ¬Occurs .blocked experiments) ∧
      ((tally experiments).nulls = [] ↔ ¬Occurs .null experiments) :=
  ⟨tally_get experiments (k := .win) (by decide), tally_get experiments (k := .blocked) (by decide),
    tally_get experiments (k := .null) (by decide)⟩

theorem says_noSaving (experiments : List Experiment) :
    Emits noSaving experiments ↔ Occurs .null experiments ∧ ¬Occurs .win experiments := by
  obtain ⟨hwins, -, hnulls⟩ := tally_kinds experiments
  rw [emits_noSaving, hwins, ne_eq, hnulls, not_not]

theorem says_noUsable (experiments : List Experiment) :
    Emits noUsable experiments ↔ experiments ≠ [] ∧
      ¬Occurs .win experiments ∧ ¬Occurs .blocked experiments ∧ ¬Occurs .null experiments := by
  obtain ⟨hwins, hblocked, hnulls⟩ := tally_kinds experiments
  rw [emits_noUsable, linesOf_eq_nil, hwins, hblocked, hnulls]

/-- **What is on no list, or on one that is not looked at, makes the headline wrong.** -/
theorem truthful_iff (experiments : List Experiment) :
    Truthful experiments ↔
      ¬(Occurs .blocked experiments ∧ Occurs .null experiments ∧ ¬Occurs .win experiments) ∧
      ¬(Occurs .regression experiments ∧ ¬Occurs .win experiments ∧
        ¬Occurs .blocked experiments ∧ ¬Occurs .null experiments) := by
  have hsome : ∀ k, Occurs k experiments → experiments ≠ [] := by
    rintro k ⟨e, he, -⟩
    exact List.ne_nil_of_mem he
  constructor
  · rintro ⟨hfirst, hsecond⟩
    constructor
    · rintro ⟨hblock, hnull, hwin⟩
      exact hfirst ((says_noSaving _).mpr ⟨hnull, hwin⟩) ((exists_saving _).mpr (Or.inr hblock))
    · rintro ⟨hregression, hnone⟩
      exact hsecond ((says_noUsable _).mpr ⟨hsome _ hregression, hnone⟩)
        ((exists_computed _).mpr ⟨_, hregression⟩)
  · rintro ⟨hfirst, hsecond⟩
    constructor
    · intro hemits hsave
      obtain ⟨hnull, hwin⟩ := (says_noSaving _).mp hemits
      rcases (exists_saving _).mp hsave with hwin' | hblock
      · exact hwin hwin'
      · exact hfirst ⟨hblock, hnull, hwin⟩
    · intro hemits hcomputed
      obtain ⟨-, hwin, hblock, hnull⟩ := (says_noUsable _).mp hemits
      obtain ⟨k, hk⟩ := (exists_computed _).mp hcomputed
      cases k with
      | win => exact hwin hk
      | blocked => exact hblock hk
      | null => exact hnull hk
      | regression => exact hsecond ⟨hk, hwin, hblock, hnull⟩

-- An experiment with one failed gate and one with none.
def blockedOne : Experiment where
  experiment := "e1-rail".toList
  gates := [.pass, .fail]
  placementGates := []
  contrasts := [⟨headlineMetric, "both-power".toList, some (-12), some (-4), some 1, some true⟩]

def quietOne : Experiment where
  experiment := "e3-ab".toList
  gates := [.pass]
  placementGates := [.skip]
  contrasts := [⟨headlineMetric, "scx-flat".toList, some 2, some (1 / 2), some 2, some false⟩]

def worseOne : Experiment where
  experiment := "e3-ab".toList
  gates := [.pass]
  placementGates := [.skip]
  contrasts := [⟨headlineMetric, "scx-flat".toList, some 30, some 9, some 2, some true⟩]

/-- A blocked saving next to a null is no saving "in any arm", and a regression alone is
nothing computed. -/
theorem truthful_fails :
    ¬Truthful [blockedOne, quietOne] ∧ ¬Truthful [worseOne] := by
  constructor
  · intro h
    refine h.noSaving ((emits_noSaving _).mpr (by decide)) ⟨blockedOne, by simp, ?_⟩
    exact ⟨_, List.mem_singleton_self _, rfl, rfl, -12, rfl, by norm_num⟩
  · intro h
    refine h.noUsable ((emits_noUsable _).mpr (by decide)) ⟨worseOne, by simp, ?_⟩
    exact ⟨_, List.mem_singleton_self _, rfl, by simp⟩

end Analyze

end FakeBigLittle
