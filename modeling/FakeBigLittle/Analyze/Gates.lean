import FakeBigLittle.Analyze.Contrast
import Mathlib.Data.Char
import Mathlib.Data.List.Dedup
import Mathlib.Data.List.Lex

/-!
# Quality gates

What `scripts/analyze.py` checks of the runs of an experiment, arm by arm: the gates, the drift,
the placement, the frequencies and the coverage. `arms` is a dictionary in the order in which the
arms came in.
-/

namespace FakeBigLittle

open CString Dict

namespace Analyze

structure Gate where
  name : Text
  status : Status
  detail : Text

abbrev Arms := Dict Text (List Row)

def rowsOf (arms : Arms) : List Row := (values arms).flatten

def maxStartTempSpreadC : ℚ := 5
def throttleMarginC : ℚ := 3
def tjmaxC : ℚ := 100
def maxCrossDomainFrac : ℚ := 0.20
def driftRho : ℚ := 0.6
def freqRatioReal : ℚ := 0.90
def nCpus : Nat := 8

def nat (n : Nat) : Text := Nat.toDigits 10 n

def join (sep : String) (texts : List Text) : Text := sep.toList.intercalate texts

def failIf (bad : Bool) : Status := if bad then .fail else .pass

/-! ## The gates of an experiment -/

def basename (file : Text) : Text := (file.reverse.takeWhile (· ≠ '/')).reverse

-- `sorted(set(texts))`
def sortedSet (texts : List Text) : List Text := sortBy id texts.dedup

def completionGate (rows : List Row) : Gate :=
  let badOk := rows.filter fun r => r.ok ≠ some true
  let badExit := rows.filter fun r => r.exitCode ≠ some 0
  let name := "run completion".toList
  let of := "/".toList ++ nat rows.length
  if badOk ≠ [] ∨ badExit ≠ [] then
    let files := join ", " ((sortedSet ((badOk ++ badExit).map fun r => basename r.file)).take 8)
    ⟨name, .fail, [nat badOk.length, of, " runs with ok != true, ".toList, nat badExit.length, of,
      " with exit_code != 0: ".toList, if files = [] then "-".toList else files].flatten⟩
  else ⟨name, .pass, [nat rows.length, of, " runs have ok=true and exit_code=0".toList].flatten⟩

-- `{a: mean(values(rs, "start_temp_c")) ..}`, where it is not `None`
def startTemps (arms : Arms) : Dict Text ℚ :=
  arms.filterMap fun e => (mean (valuesOf e.2 "start_temp_c".toList)).map fun v => (e.1, v)

def temperatureGate (arms : Arms) : Gate :=
  let known := startTemps arms
  let name := "start temperature spread".toList
  match known.argmax Prod.snd, known.argmin Prod.snd with
  | some hot, some cold =>
    if known.length < 2 then
      ⟨name, .skip, ["start_temp_c present for ".toList, nat known.length, "/".toList,
        nat arms.length, " arms".toList].flatten⟩
    else
      let spread := hot.2 - cold.2
      ⟨name, failIf (maxStartTempSpreadC ≤ spread),
        ["max-min of per-arm mean start_temp_c = ".toList, Decimal.fixed 2 spread,
          " C (limit ".toList, Decimal.fixed 1 maxStartTempSpreadC, "); hottest ".toList, hot.1,
          " ".toList, Decimal.fixed 1 hot.2, " C, coldest ".toList, cold.1, " ".toList,
          Decimal.fixed 1 cold.2, " C".toList].flatten⟩
  | _, _ =>
    ⟨name, .skip, ["start_temp_c present for 0/".toList, nat arms.length, " arms".toList].flatten⟩

-- The arms of every `repr(on_ac)`.
def acStates (arms : Arms) : Dict Text (List Text) :=
  collect Prod.fst [] (fun names e => names ++ [e.2])
    (arms.flatMap fun e => e.2.map fun r => (r.onAc, e.1))

def acGate (arms : Arms) : Gate :=
  let ac := acStates arms
  let name := "on_ac consistent".toList
  match ac with
  | [(state, _)] =>
    ⟨name, .pass, ["all ".toList, nat (rowsOf arms).length, " runs on_ac=".toList, state].flatten⟩
  | _ =>
    ⟨name, .fail, "mixed AC state across runs: ".toList ++ join "; " ((sortedItems ac).map fun e =>
      [e.1, " in arms \x7b".toList, join "," (sortedSet e.2), "\x7d".toList].flatten)⟩

def cmaxOf (rows : List Row) : List (Row × ℚ) :=
  rows.filterMap fun r => (r.col "pkg_c_max".toList).map fun v => (r, v)

def thermalGate (rows : List Row) : Gate :=
  let cmax := cmaxOf rows
  let name := "thermal headroom".toList
  match cmax.argmax Prod.snd with
  | none => ⟨name, .skip, "no pkg_c_max recorded".toList⟩
  | some worst =>
    let near := cmax.filter fun e => tjmaxC - throttleMarginC ≤ e.2
    ⟨name, failIf (near ≠ []),
      ["max pkg_c_max = ".toList, Decimal.fixed 1 worst.2, " C in arm ".toList, worst.1.arm,
        " (limit ".toList, Decimal.fixed 1 (tjmaxC - throttleMarginC), " C = Tjmax-".toList,
        Decimal.whole throttleMarginC, "); ".toList, nat near.length, "/".toList, nat cmax.length,
        " runs at or above the limit".toList].flatten⟩

def balanceGate (arms : Arms) : Gate :=
  let counts := (sortedItems arms).map fun e => (e.1, e.2.length)
  ⟨"balanced reps per arm".toList, failIf (1 < (counts.map Prod.snd).dedup.length),
    join ", " (counts.map fun c => [c.1, "=".toList, nat c.2].flatten)⟩

structure Drift where
  arm : Text
  metric : Text
  rho : ℚ
  n : Nat

def driftOf (m : Math ℚ) (arms : Arms) (metrics : List Text) : List Drift :=
  (sortedItems arms).flatMap fun e => metrics.filterMap fun metric =>
    match spearman m (e.2.map Row.rep) (e.2.map fun r => r.col metric) with
    | some rho => if driftRho < |rho| then some ⟨e.1, metric, rho, e.2.length⟩ else none
    | none => none

def driftCaveat (minN : Nat) : Text :=
  if 8 ≤ minN then []
  else
    ["  [n=".toList, nat minN, " per arm: rho is noisy at this size, treat as a prompt to ".toList,
      "inspect the run order, not as proof of drift]".toList].flatten

def driftGate (arms : Arms) (drift : List Drift) : Gate :=
  let name := "run-order drift".toList
  if drift ≠ [] then
    let minN := ((values arms).map List.length).min?.getD 0
    ⟨name, .fail, [nat drift.length, " arm/metric pairs with |Spearman rho vs rep| > ".toList,
      Decimal.fixed 1 driftRho, ": ".toList, join "; " ((drift.take 6).map fun d =>
        [d.arm, "/".toList, d.metric, " rho=".toList, Decimal.signed 2 d.rho].flatten),
      driftCaveat minN].flatten⟩
  else
    ⟨name, .pass, "no arm/metric pair exceeds |Spearman rho vs rep| = ".toList ++
      Decimal.fixed 1 driftRho⟩

def qualityGates (m : Math ℚ) (arms : Arms) (metrics : List Text) : List Gate × List Drift :=
  let rows := rowsOf arms
  let drift := driftOf m arms metrics
  ([completionGate rows, temperatureGate arms, acGate arms, thermalGate rows, balanceGate arms,
    driftGate arms drift], drift)

/-! ## Placement -/

structure PlacementRecord where
  arm : Text
  n : Nat
  nWithBls : Nat
  strict : Option Bool := none
  enqueueMean : Option ℚ := none
  crossFracMean : Option ℚ := none
  crossFracMax : Option ℚ := none
  runBigFracMean : Option ℚ := none
  runLittleFracMean : Option ℚ := none
  dsqBigFracMean : Option ℚ := none

structure Placement where
  arms : List PlacementRecord
  gates : List Gate
  ok : Bool

def placementRecord (arm : Text) (rows : List Row) : PlacementRecord :=
  let withBls := rows.filter Row.blsPresent
  let meanOf := fun column : String => mean (valuesOf withBls column.toList)
  match withBls with
  | [] => { arm := arm, n := rows.length, nWithBls := 0 }
  | first :: _ =>
    { arm := arm
      n := rows.length
      nWithBls := withBls.length
      strict := first.strict
      enqueueMean := meanOf "bls_enqueue"
      crossFracMean := meanOf "bls_cross_frac"
      crossFracMax := (valuesOf withBls "bls_cross_frac".toList).max?
      runBigFracMean := meanOf "bls_run_big_frac"
      runLittleFracMean := meanOf "bls_run_little_frac"
      dsqBigFracMean := meanOf "bls_dsq_big_frac" }

def placementGate (rec : PlacementRecord) : Option Gate :=
  rec.crossFracMean.map fun cross =>
    let exceeds := decide (maxCrossDomainFrac < cross)
    let times := [percent rec.runBigFracMean, " / ".toList, percent rec.runLittleFracMean].flatten
    if rec.strict = some true then
      ⟨["placement: ".toList, rec.arm, " (strict)".toList].flatten, failIf exceeds,
        ["cross_domain/enqueue = ".toList, pct (100 * cross), " (max over runs ".toList,
          pct (100 * rec.crossFracMax.getD 0), "), budget ".toList,
          Decimal.whole (100 * maxCrossDomainFrac), "%; run time big/LITTLE = ".toList, times,
          if exceeds then
            ["  -- the tasks did NOT stay partitioned, so this arm cannot ".toList,
              "support any claim about partitioning.".toList].flatten
          else []].flatten⟩
    else
      ⟨["placement: ".toList, rec.arm, " (non-strict)".toList].flatten, .info,
        ["cross_domain/enqueue = ".toList, pct (100 * cross), "; run time big/LITTLE = ".toList,
          times].flatten⟩

def noPlacementGate : Gate :=
  ⟨"placement".toList, .skip, "no arm reported bls scheduler counters".toList⟩

def placementSanity (arms : Arms) : Placement :=
  let recs := (sortedItems arms).map fun e => placementRecord e.1 e.2
  let gates := recs.filterMap placementGate ++
    if recs.any fun rec => 0 < rec.nWithBls then [] else [noPlacementGate]
  ⟨recs, gates, !gates.any fun g => g.status = .fail⟩

/-! ## Frequencies -/

structure CpuRecord where
  cpu : Nat
  bzyMhz : Option ℚ
  avgMhz : Option ℚ
  busy : Option ℚ
  epp : Option ℚ

structure FrequencyRecord where
  arm : Text
  n : Nat
  partitionedEpp : Bool
  smtPairsSplit : Nat
  perCpu : List CpuRecord
  bigBzyMhz : Option ℚ
  littleBzyMhz : Option ℚ
  ratioLittleOverBig : Option ℚ
  ratioCi : Interval ℚ
  verdict : Text

structure Frequency where
  arms : List FrequencyRecord
  note : Text

def cpuColumn (cpu : Nat) (what : String) : Text := ["cpu".toList, nat cpu, what.toList].flatten

def cpuRecord (rows : List Row) (cpu : Nat) : CpuRecord where
  cpu := cpu
  bzyMhz := mean (valuesOf rows (cpuColumn cpu "_bzy_mhz"))
  avgMhz := mean (valuesOf rows (cpuColumn cpu "_avg_mhz"))
  busy := mean (valuesOf rows (cpuColumn cpu "_busy"))
  epp := median (valuesOf rows (cpuColumn cpu "_epp"))

def frequencyVerdict (partitioned : Bool) (ratio : Option ℚ) : Text :=
  if !partitioned then
    ["flat EPP: no big/LITTLE split was requested in this arm ".toList,
      "(all 8 CPUs report the same EPP)".toList].flatten
  else
    match ratio with
    | none => "no per-CPU frequency data".toList
    | some rr =>
      if freqRatioReal ≤ rr then
        ["NOT PHYSICALLY REAL: LITTLE cores ran at ".toList, Decimal.whole (100 * rr),
          "% of big-core frequency (>= ".toList, Decimal.whole (100 * freqRatioReal),
          "%). The EPP write did not separate the ".toList,
          "domains, so nothing downstream of this can be attributed ".toList,
          "to partitioning.".toList].flatten
      else
        ["frequency split is real: LITTLE cores ran at ".toList, Decimal.whole (100 * rr),
          "% of big-core frequency".toList].flatten

def smtWarning (pairs : Nat) : Text :=
  if pairs = 0 then []
  else ["  [WARNING: ".toList, nat pairs, " SMT sibling pair(s) split across domains; ".toList,
    "siblings share one clock domain, so one of the two EPP settings is silently ignored]".toList
    ].flatten

def frequencyRecord (m : Math ℚ) (rng : Random ℚ) (seed : Int) (arm : Text) (rows : List Row) :
    FrequencyRecord :=
  let ratios := valuesOf rows "bzy_ratio_little_over_big".toList
  let partitioned := rows.any Row.partitionedEpp
  let pairs := (rows.map Row.smtPairsSplit).foldl max 0
  { arm := arm
    n := rows.length
    partitionedEpp := partitioned
    smtPairsSplit := pairs
    perCpu := (List.range nCpus).map (cpuRecord rows)
    bigBzyMhz := mean (valuesOf rows "bzy_mhz_big_mean".toList)
    littleBzyMhz := mean (valuesOf rows "bzy_mhz_little_mean".toList)
    ratioLittleOverBig := mean ratios
    ratioCi := if ratios.length < 2 then { nBoot := nBoot } else meanCi m rng ratios seed
    verdict := frequencyVerdict partitioned (mean ratios) ++ smtWarning pairs }

def realArms (recs : List FrequencyRecord) : List (Text × ℚ) :=
  recs.filterMap fun rec =>
    if rec.partitionedEpp then rec.ratioLittleOverBig.map fun rr => (rec.arm, rr) else none

def frequencyNote (real : List (Text × ℚ)) : Text :=
  match real.argmin Prod.snd with
  | none => "no arm in this experiment requested a big/LITTLE EPP split.".toList
  | some best =>
    if real.all fun e => freqRatioReal ≤ e.2 then
      ["The partition is NOT physically real in any arm: LITTLE-domain ".toList,
        "frequency is within ".toList, Decimal.whole (100 * (1 - freqRatioReal)),
        "% of big-domain frequency. Everything ".toList,
        "downstream is moot -- the energy comparison is a comparison of ".toList,
        "the machine against itself.".toList].flatten
    else
      ["The frequency split is real (lowest little/big ratio ".toList, Decimal.fixed 2 best.2,
        " in arm ".toList, best.1,
        "), so the energy comparison is testing a genuine partition.".toList].flatten

def frequencyDivergence (m : Math ℚ) (rng : Random ℚ) (seed : Int) (arms : Arms) : Frequency :=
  let recs := (sortedItems arms).map fun e => frequencyRecord m rng seed e.1 e.2
  ⟨recs, frequencyNote (realArms recs)⟩

/-! ## Coverage -/

structure CoverageField where
  field : Text
  present : Nat
  missing : Nat
  pct : ℚ

structure Coverage where
  nRuns : Nat
  fields : List CoverageField

def coverageField (n : Nat) (label : String) (present : Nat) : CoverageField :=
  ⟨label.toList, present, n - present, if n = 0 then 0 else 100 * present / n⟩

def coverage (rows : List Row) : Coverage :=
  let numeric := fun (label column : String) =>
    coverageField rows.length label (rows.countP fun r => (r.col column.toList).isSome)
  { nRuns := rows.length
    fields :=
      [numeric "energy.pkg_j" "pkg_j", numeric "energy.wall_s" "wall_s",
        numeric "energy.rest_j" "rest_j", numeric "energy.cpu_bzy_mhz" "cpu0_bzy_mhz",
        numeric "energy.epp" "cpu0_epp", numeric "env.start_temp_c" "start_temp_c",
        numeric "energy.pkg_c_max" "pkg_c_max",
        coverageField rows.length "pinger" (rows.countP Row.pingerPresent),
        coverageField rows.length "spin" (rows.countP Row.spinPresent),
        coverageField rows.length "bls" (rows.countP Row.blsPresent)] }

end Analyze

end FakeBigLittle
