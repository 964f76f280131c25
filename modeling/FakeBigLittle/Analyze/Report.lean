import FakeBigLittle.Analyze.Gates
import Mathlib.Data.Prod.Lex

/-!
# The analysis

`analyze` of `scripts/analyze.py`: the rows grouped by experiment and arm, and the record of each
experiment.
-/

namespace FakeBigLittle

open CString Dict

namespace Analyze

/-! ## Grouping -/

def rowKey (r : Row) : ℚ ×ₗ Text ×ₗ Text :=
  toLex (r.rep.getD 0, toLex (r.timestamp.getD [], r.file))

def addRow (arms : Arms) (r : Row) : Arms := update r.arm [] (fun rs => rs ++ [r]) arms

def groupRuns (rows : List Row) : Dict Text Arms :=
  mapValues (mapValues (sortBy rowKey)) (collect Row.experiment [] addRow rows)

def armRows (arms : Arms) (arm : Text) : List Row := (get arms arm).getD []

def isEevdfFlat (rows : List Row) : Bool :=
  match rows with
  | [] => false
  | r :: _ => r.sched = some "eevdf".toList ∧ r.eppMode = some "flat".toList

def isNamedControl (arm : Text) : Bool := arm.map Char.toLower = "control".toList

def pickControl (arms : Arms) : Option Text :=
  let named := sortedKeys arms
  match named.find? fun a => isEevdfFlat (armRows arms a) with
  | some a => some a
  | none =>
    match named.find? isNamedControl with
    | some a => some a
    | none => named.head?

def controlReason (control : Option Text) (ctrlRows : List Row) : Text :=
  if ctrlRows ≠ [] ∧ ¬isEevdfFlat ctrlRows then
    if isNamedControl (control.getD []) then "named 'control'".toList
    else "first arm alphabetically (no eevdf/flat arm present)".toList
  else "factors sched=eevdf,epp=flat".toList

/-! ## The record of an experiment -/

structure MdeRow where
  arm : Text
  metric : Text
  unit : Text
  nControl : Nat
  nArm : Nat
  pooledSd : Option ℚ
  controlMean : Option ℚ
  mdeAbs : Option ℚ
  mdePct : Option ℚ
  alpha : ℚ
  power : ℚ

structure Erec where
  experiment : Text
  nRuns : Nat
  arms : List Text
  nPerArm : List (Text × Nat)
  controlArm : Option Text
  controlSelection : Text
  metrics : List Text
  summary : List ArmSummary
  contrasts : List ContrastRecord
  mde : List MdeRow
  gates : List Gate
  drift : List Drift
  placement : Placement
  coverage : Coverage
  frequency : Frequency
  renderFrequency : Bool
  verdict : List Text := []

def railExperiment : Text := "e1-rail".toList

def frequencyGate (rec : FrequencyRecord) : Option Gate :=
  if !rec.partitionedEpp then none
  else
    rec.ratioLittleOverBig.map fun rr =>
      let bad := decide (freqRatioReal ≤ rr)
      ⟨"partition is physically real: ".toList ++ rec.arm, failIf bad,
        ["little/big bzy MHz = ".toList, Decimal.fixed 3 rr, " (".toList, fmt rec.littleBzyMhz 3,
          " MHz / ".toList, fmt rec.bigBzyMhz 3, " MHz over ".toList, nat rec.n,
          " runs); a real split needs < ".toList, Decimal.fixed 2 freqRatioReal,
          if bad then
            ["  -- EPP did not separate the frequency domains, so no downstream ".toList,
              "energy difference can be attributed to partitioning.".toList].flatten
          else []].flatten⟩

def mdeRow (m : Math ℚ) (ctrlRows rows : List Row) (c : ContrastRecord) : MdeRow where
  arm := c.arm
  metric := c.metric
  unit := metricUnit c.metric
  nControl := c.nControl
  nArm := c.nArm
  pooledSd := pooledSd m (valuesOf ctrlRows c.metric) (valuesOf rows c.metric)
  controlMean := c.meanControl
  mdeAbs := c.mdeAbs
  mdePct := c.mdePct
  alpha := alpha
  power := power

/-! ## The verdict -/

def Erec.failed (e : Erec) : List Text :=
  ((e.gates ++ e.placement.gates).filter fun g => g.status = .fail).map Gate.name

def versus (e : Erec) (c : ContrastRecord) : Text :=
  [c.arm, " vs ".toList, e.controlArm.getD "None".toList].flatten

def noDifferenceText (e : Erec) (c : ContrastRecord) : Text :=
  [versus e c, ": no detectable difference in energy-to-solution (|effect| < MDE = ".toList,
    fmt c.mdeAbs 3, " J = ".toList, (c.mdePct.map pct).getD notAvailable,
    " of the control mean, at 80% power / alpha ".toList, Decimal.fixed 2 alpha, " with n=".toList,
    nat c.nControl, " vs ".toList, nat c.nArm,
    "). This design could not have seen a saving ".toList,
    "smaller than that; it is not evidence that the saving is exactly zero.".toList].flatten

def differenceText (e : Erec) (c : ContrastRecord) (diff : ℚ) : Text :=
  [versus e c, ": energy-to-solution is ".toList,
    if diff < 0 then "LOWER".toList else "HIGHER".toList, " by ".toList, fmt (some |diff|) 3,
    " J (".toList, pct (c.pctChange.getD 0), "), 95% CI [".toList, fmt c.ciLo 3, ", ".toList,
    fmt c.ciHi 3, "] excludes zero (Hedges g = ".toList, fmt c.hedgesG 3,
    ", permutation p = ".toList, fmt c.pPerm 4, ").".toList].flatten

def inadmissibleText (e : Erec) (diff : ℚ) : Text :=
  ["   CAUTION: this apparent ".toList,
    if diff < 0 then "saving".toList else "regression".toList,
    " is not admissible while these gates fail: ".toList, join ", " (sortedSet e.failed),
    ".".toList].flatten

def contrastLines (e : Erec) (c : ContrastRecord) : List Text :=
  match c.diff with
  | none => [versus e c ++ ": insufficient data for an energy contrast.".toList]
  | some diff =>
    if c.detectable = some true then
      differenceText e c diff :: if e.failed = [] then [] else [inadmissibleText e diff]
    else [noDifferenceText e c]

def experimentVerdict (e : Erec) : List Text :=
  let head := e.contrasts.filter fun c => c.metric = headlineMetric
  (if head = [] then
    [["No ".toList, headlineMetric, " data in ".toList, e.experiment,
      "; no energy conclusion can be drawn.".toList].flatten]
  else head.flatMap (contrastLines e)) ++
    e.frequency.note :: if e.failed = [] then []
      else [["Failing gates: ".toList, join ", " (sortedSet e.failed), ".".toList].flatten]

/-! ## All experiments -/

section Report

variable (m : Math ℚ) (rng : Random ℚ) (seed : Int)

def contrastsOf (arms : Arms) (control : Option Text) (metrics : List Text) :
    List ContrastRecord :=
  ((sortedKeys arms).filter fun a => some a ≠ control).flatMap fun a =>
    metrics.map fun metric =>
      { contrast m rng seed ((control.map (armRows arms)).getD []) (armRows arms a) metric with
        arm := a
        controlArm := control.getD [] }

def experimentRecord (exp : Text) (arms : Arms) : Erec :=
  let rows := rowsOf arms
  let metrics := availableMetrics rows
  let control := pickControl arms
  let ctrlRows := (control.map (armRows arms)).getD []
  let gates := qualityGates m arms metrics
  let contrasts := contrastsOf m rng seed arms control metrics
  -- The interval of a ratio has the default seed.
  let frequency := frequencyDivergence m rng 0 arms
  { experiment := exp
    nRuns := rows.length
    arms := sortedKeys arms
    nPerArm := (sortedItems arms).map fun e => (e.1, e.2.length)
    controlArm := control
    controlSelection := controlReason control ctrlRows
    metrics := metrics
    summary := (sortedKeys arms).flatMap fun a => metrics.map fun metric =>
      { summarizeArm m rng seed (armRows arms a) metric with arm := a }
    contrasts := contrasts
    mde := contrasts.map fun c => mdeRow m ctrlRows (armRows arms c.arm) c
    gates := gates.1 ++ frequency.arms.filterMap frequencyGate
    drift := gates.2
    placement := placementSanity arms
    coverage := coverage rows
    frequency := frequency
    renderFrequency := exp = railExperiment }

def Erec.withVerdict (e : Erec) : Erec := { e with verdict := experimentVerdict e }

/-- What the headline reads of the record. -/
def Erec.reported (e : Erec) : Experiment where
  experiment := e.experiment
  gates := e.gates.map Gate.status
  placementGates := e.placement.gates.map Gate.status
  contrasts := e.contrasts.map fun c =>
    ⟨c.metric, c.arm, c.diff, c.pctChange, c.mdePct, c.detectable⟩

structure Analysis where
  experiments : List Erec
  coverage : Coverage
  nRuns : Nat
  headline : List Text

def analyze (rows : List Row) : Analysis :=
  let exps := groupRuns rows
  let experiments := (sortedKeys exps).map fun exp =>
    (experimentRecord m rng seed exp ((get exps exp).getD [])).withVerdict
  { experiments := experiments
    coverage := coverage rows
    nRuns := rows.length
    headline := overallHeadline (experiments.map Erec.reported) }

end Report

end Analyze

end FakeBigLittle
