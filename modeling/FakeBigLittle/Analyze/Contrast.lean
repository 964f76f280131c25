import FakeBigLittle.Analyze.Headline
import FakeBigLittle.Analyze.Resample

/-!
# Summaries and contrasts

A row of the tidy table, and what `scripts/analyze.py` says about the rows of an arm, and about
those of an arm against the control.
-/

namespace FakeBigLittle

open CString

namespace Analyze

/-- What is read of a row of `flatten_run`. `col` has the columns that hold numbers. -/
structure Row where
  file : Text
  experiment : Text
  arm : Text
  rep : Option ℚ
  timestamp : Option Text
  sched : Option Text
  eppMode : Option Text
  strict : Option Bool
  ok : Option Bool
  exitCode : Option Int
  onAc : Text  -- its `repr`
  partitionedEpp : Bool
  smtPairsSplit : Nat
  pingerPresent : Bool
  spinPresent : Bool
  blsPresent : Bool
  col : Text → Option ℚ

/-! ## Metrics -/

structure Metric where
  column : Text
  unit : Text
  lowerBetter : Option Bool

def metricTable : List Metric :=
  [⟨"energy_to_solution_j".toList, "J".toList, some true⟩,
    ⟨"edp_js".toList, "J*s".toList, some true⟩,
    ⟨"pkg_j_per_s".toList, "W".toList, some true⟩,
    ⟨"wall_s".toList, "s".toList, some true⟩,
    ⟨"core_j".toList, "J".toList, some true⟩,
    ⟨"rest_frac".toList, "-".toList, none⟩,
    ⟨"wake_us_p99".toList, "us".toList, some true⟩,
    ⟨"wake_us_p50".toList, "us".toList, some true⟩,
    ⟨"bzy_mhz_big_mean".toList, "MHz".toList, none⟩,
    ⟨"bzy_mhz_little_mean".toList, "MHz".toList, none⟩]

def metricOf (metric : Text) : Option Metric := metricTable.find? fun m => m.column = metric

def metricUnit (metric : Text) : Text := ((metricOf metric).map Metric.unit).getD []

def metricLowerBetter (metric : Text) : Option Bool := (metricOf metric).bind Metric.lowerBetter

def availableMetrics (rows : List Row) : List Text :=
  (metricTable.map Metric.column).filter fun m => rows.any fun r => (r.col m).isSome

def valuesOf (rows : List Row) (metric : Text) : List ℚ := rows.filterMap fun r => r.col metric

/-! ## Formatting -/

def notAvailable : Text := "n/a".toList

def fmt (x : Option ℚ) (prec : Nat) : Text :=
  match x with
  | none => notAvailable
  | some v =>
    if v ≠ 0 ∧ (|v| < 0.001 ∨ 10000000 ≤ |v|) then Decimal.scientific prec v
    else if 1000 ≤ |v| then Decimal.fixed 1 v
    else if 10 ≤ |v| then Decimal.fixed 2 v
    else Decimal.fixed prec v

-- `pct`
def percent (x : Option ℚ) : Text := (x.map fun v => pct (100 * v)).getD notAvailable

def signedPct (x : Option ℚ) : Text :=
  (x.map fun v => Decimal.signed 1 v ++ ['%']).getD notAvailable

/-! ## The summary of an arm -/

structure ArmSummary where
  arm : Text := []
  metric : Text
  unit : Text
  n : Nat
  nRuns : Nat
  nMissing : Nat
  mean : Option ℚ
  median : Option ℚ
  sd : Option ℚ
  min : Option ℚ
  max : Option ℚ
  ciLo : Option ℚ := none
  ciHi : Option ℚ := none
  ciMethod : Option Method := none

def summarizeArm (m : Math ℚ) (rng : Random ℚ) (seed : Int) (rows : List Row) (metric : Text) :
    ArmSummary :=
  let xs := valuesOf rows metric
  let s : ArmSummary :=
    { metric := metric
      unit := metricUnit metric
      n := xs.length
      nRuns := rows.length
      nMissing := rows.length - xs.length
      mean := mean xs
      median := median xs
      sd := sd m xs
      min := xs.min?
      max := xs.max? }
  if xs.length < 2 then s
  else
    let ci := meanCi m rng xs seed
    { s with ciLo := ci.lo, ciHi := ci.hi, ciMethod := ci.method }

/-! ## The contrast of an arm -/

structure ContrastRecord where
  arm : Text := []
  controlArm : Text := []
  metric : Text
  unit : Text
  nControl : Nat
  nArm : Nat
  meanControl : Option ℚ
  meanArm : Option ℚ
  diff : Option ℚ := none
  ciLo : Option ℚ := none
  ciHi : Option ℚ := none
  ciMethod : Option Method := none
  pctChange : Option ℚ := none
  hedgesG : Option ℚ := none
  pPerm : Option ℚ := none
  mdeAbs : Option ℚ := none
  mdePct : Option ℚ := none
  detectable : Option Bool := none
  verdict : Text := "insufficient data".toList
  sentence : Text := []

namespace ContrastRecord

-- A bound that is missing straddles too.
def straddles (c : ContrastRecord) : Bool :=
  match c.ciLo, c.ciHi with
  | some lo, some hi => decide (lo ≤ 0 ∧ 0 ≤ hi)
  | _, _ => true

def insufficientText (c : ContrastRecord) : Text :=
  [c.metric, ": insufficient data (n_control=".toList, Nat.toDigits 10 c.nControl,
    ", n_arm=".toList, Nat.toDigits 10 c.nArm, "); no contrast computed.".toList].flatten

def ofControl (c : ContrastRecord) : Text :=
  (c.mdePct.map fun p => [" = ".toList, pct p, " of control".toList].flatten).getD []

def belowMdeText (c : ContrastRecord) : Text :=
  [c.metric, ": no detectable difference (|effect| < MDE = ".toList, fmt c.mdeAbs 3, " ".toList,
    c.unit, c.ofControl, ").".toList].flatten

def includesZeroText (c : ContrastRecord) : Text :=
  [c.metric, ": no detectable difference (95% CI [".toList, fmt c.ciLo 3, ", ".toList,
    fmt c.ciHi 3, "] ".toList, c.unit, " includes zero; MDE = ".toList, fmt c.mdeAbs 3,
    " ".toList, c.unit, c.ofControl, "). The point estimate is not evidence.".toList].flatten

def direction (diff : ℚ) : Text := if diff < 0 then "lower".toList else "higher".toList

def excludesZeroText (c : ContrastRecord) (diff : ℚ) : Text :=
  [c.metric, ": ".toList, direction diff, " than control by ".toList, fmt (some |diff|) 3,
    " ".toList, c.unit, " (".toList, signedPct c.pctChange, "), 95% CI [".toList, fmt c.ciLo 3,
    ", ".toList, fmt c.ciHi 3, "] excludes zero; Hedges g = ".toList, fmt c.hedgesG 3,
    ", permutation p = ".toList, fmt c.pPerm 4, "; MDE = ".toList, fmt c.mdeAbs 3, " ".toList,
    c.unit, ".".toList].flatten

def verdictOf (c : ContrastRecord) (diff : ℚ) : Text :=
  match metricLowerBetter c.metric with
  | none => direction diff ++ " (diagnostic)".toList
  | some lowerBetter =>
    if decide (diff < 0) = lowerBetter then direction diff ++ " (better)".toList
    else direction diff ++ " (worse)".toList

/-- What is said of a contrast whose numbers are there. -/
def conclude (c : ContrastRecord) (diff : ℚ) : ContrastRecord :=
  if c.straddles then
    { c with
      detectable := some false
      verdict := "no detectable difference".toList
      sentence :=
        if c.mdeAbs.any fun m => |diff| < m then c.belowMdeText else c.includesZeroText }
  else
    { c with
      detectable := some true
      verdict := c.verdictOf diff
      sentence := c.excludesZeroText diff }

end ContrastRecord

def share (x y : ℚ) : Option ℚ := if y = 0 then none else some (100 * x / y)

def contrast (m : Math ℚ) (rng : Random ℚ) (seed : Int) (controlRows armRows : List Row)
    (metric : Text) : ContrastRecord :=
  let a := valuesOf controlRows metric
  let b := valuesOf armRows metric
  let c : ContrastRecord :=
    { metric := metric
      unit := metricUnit metric
      nControl := a.length
      nArm := b.length
      meanControl := mean a
      meanArm := mean b }
  if a.length < 2 ∨ b.length < 2 then { c with sentence := c.insufficientText }
  else
    match mean a, mean b with
    | some mc, some ma =>
      let ci := diffCi m rng a b seed
      let effect := mde m a b alpha power
      { c with
        diff := some (ma - mc)
        ciLo := ci.lo
        ciHi := ci.hi
        ciMethod := ci.method
        pctChange := share (ma - mc) mc
        hedgesG := hedgesG m a b
        pPerm := permutationP rng a b nPerm seed
        mdeAbs := effect
        mdePct := effect.bind fun e => share e |mc| }.conclude (ma - mc)
    | _, _ => c

end Analyze

end FakeBigLittle
