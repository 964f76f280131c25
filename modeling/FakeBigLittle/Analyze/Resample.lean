import FakeBigLittle.Analyze.Stats
import Mathlib.Algebra.Order.Floor.Defs

/-!
# Resampling

The bootstrap interval, the permutation test and the minimum detectable effect. The generator is
a parameter: a state for each seed, and the draws out of a state.
-/

namespace FakeBigLittle

namespace Analyze

open Dict

variable {K : Type} [Field K] [LinearOrder K]

def nBoot : Nat := 10000
def nPerm : Nat := 10000
def alpha : K := 0.05
def power : K := 0.80

/-- What is used of `random.Random`. -/
structure Random (K : Type) [Field K] [LinearOrder K] where
  State : Type
  seed : Int → State
  random : State → K × State
  randbelow : Nat → State → Nat × State
  random_mem : ∀ s, 0 ≤ (random s).1 ∧ (random s).1 < 1
  randbelow_lt : ∀ n s, 0 < n → (randbelow n s).1 < n

/-! ## Quantiles -/

-- `_percentile_of_sorted`, for `q` between 0 and 1
def percentileOfSorted [FloorRing K] (s : List K) (q : K) : Option K :=
  match s with
  | [] => none
  | [x] => some x
  | _ =>
    let idx := q * (s.length - 1 : Nat)
    let lo := ⌊idx⌋.toNat
    let hi := min (lo + 1) (s.length - 1)
    let frac := idx - lo
    some (s.getD lo 0 * (1 - frac) + s.getD hi 0 * frac)

/-! ## The bootstrap -/

/-- The two intervals. -/
inductive Method where
  | bca
  | percentile
  deriving DecidableEq

/-- What `bootstrap_ci` returns. -/
structure Interval (K : Type) where
  point : Option K := none
  lo : Option K := none
  hi : Option K := none
  method : Option Method := none
  nBoot : Nat

section Draws

variable [FloorRing K] (rng : Random K)

-- `rng.choices(g, k=k)`
def choices (g : List K) : Nat → rng.State → List K × rng.State
  | 0, s => ([], s)
  | k + 1, s =>
    let draw := rng.random s
    let rest := choices g k draw.2
    (g.getD ⌊draw.1 * g.length⌋.toNat 0 :: rest.1, rest.2)

/-- One sample with replacement of every group. -/
def resample : List (List K) → rng.State → List (List K) × rng.State
  | [], s => ([], s)
  | g :: groups, s =>
    let first := choices rng g g.length s
    let rest := resample groups first.2
    (first.1 :: rest.1, rest.2)

/-- The statistic of `n` resamples, but for those where it raises. -/
def replicates (groups : List (List K)) (stat : List (List K) → Option K) :
    Nat → rng.State → List K
  | 0, _ => []
  | n + 1, s =>
    let rs := resample rng groups s
    (stat rs.1).toList ++ replicates groups stat n rs.2

end Draws

/-- The share of the replicates below the estimate, half of those that equal it included. -/
def shareBelow (theta : K) (reps : List K) : K :=
  (reps.countP (· < theta) + 0.5 * reps.countP (· = theta)) / reps.length

/-- The statistic with each value left out in turn; `none` where a group is too small for it. -/
def jackknife (groups : List (List K)) (stat : List (List K) → Option K) : Option (List K) :=
  if groups.any fun g => g.length < 3 then none
  else
    (groups.zipIdx.flatMap fun g => (List.range g.1.length).map fun i => (g, i)).mapM fun gi =>
      stat (groups.set gi.1.2 (gi.1.1.eraseIdx gi.2))

/-- The acceleration, out of the skewness of the jackknife. -/
def acceleration (m : Math K) (jack : List K) : Option K :=
  let jm := jack.sum / jack.length
  let d2 := (jack.map fun v => (jm - v) ^ 2).sum
  let d3 := (jack.map fun v => (jm - v) ^ 3).sum
  if jack.length < 3 then none
  else if 0 < d2 then some (d3 / ((6 : Nat) * m.pow d2 1.5))
  else none

/-- The levels of the BCa interval; `none` where they are not defined or not in order. -/
def bcaLevels (ppf : K → Option K) (cdf : K → K) (alpha prop accel : K) : Option (K × K) := do
  let z0 ← ppf prop
  let zaLo ← ppf (alpha / (2 : Nat))
  let zaHi ← ppf (1 - alpha / (2 : Nat))
  let denomLo := 1 - accel * (z0 + zaLo)
  let denomHi := 1 - accel * (z0 + zaHi)
  let a1 := cdf (z0 + (z0 + zaLo) / denomLo)
  let a2 := cdf (z0 + (z0 + zaHi) / denomHi)
  if denomLo ≠ 0 ∧ denomHi ≠ 0 ∧ 0 < a1 ∧ a1 < a2 ∧ a2 < 1 then some (a1, a2) else none

/-- The interval out of the sorted replicates. -/
def intervalOf [FloorRing K] (m : Math K) (groups : List (List K))
    (stat : List (List K) → Option K) (nBoot : Nat) (alpha theta : K) (reps : List K) :
    Interval K :=
  let prop := shareBelow theta reps
  let accel :=
    if 0 < prop ∧ prop < 1 then (jackknife groups stat).bind (acceleration m) else none
  match accel.bind (bcaLevels (normPpf m) (normCdf m) alpha prop) with
  | some levels =>
    { point := some theta, lo := percentileOfSorted reps levels.1,
      hi := percentileOfSorted reps levels.2, method := some .bca, nBoot := nBoot }
  | none =>
    { point := some theta, lo := percentileOfSorted reps (alpha / (2 : Nat)),
      hi := percentileOfSorted reps (1 - alpha / (2 : Nat)), method := some .percentile,
      nBoot := nBoot }

/-- `stat` is `none` where it raises. -/
def bootstrapCi [FloorRing K] (m : Math K) (rng : Random K) (groups : List (List K))
    (stat : List (List K) → Option K) (nBoot : Nat) (alpha : K) (seed : Int) : Interval K :=
  if groups.any (fun g => g.length < 2) ∨ groups = [] then { nBoot := nBoot }
  else
    match stat groups with
    | none => { nBoot := nBoot }
    | some theta =>
      let reps := replicates rng groups stat nBoot (rng.seed seed)
      if reps.length < 100 then { point := some theta, nBoot := nBoot }
      else intervalOf m groups stat nBoot alpha theta (sortBy id reps)

-- The lambdas of `mean_ci` and `diff_ci`.
def statMean (groups : List (List K)) : Option K := groups[0]?.bind mean

def statDiff (groups : List (List K)) : Option K := do
  let control ← groups[0]?.bind mean
  let arm ← groups[1]?.bind mean
  return arm - control

def meanCi [FloorRing K] (m : Math K) (rng : Random K) (xs : List K) (seed : Int) : Interval K :=
  bootstrapCi m rng [xs] statMean nBoot alpha seed

def diffCi [FloorRing K] (m : Math K) (rng : Random K) (control arm : List K) (seed : Int) :
    Interval K :=
  bootstrapCi m rng [control, arm] statDiff nBoot alpha seed

/-! ## The permutation test -/

def swap (xs : List K) (i j : Nat) : List K := (xs.set i (xs.getD j 0)).set j (xs.getD i 0)

-- `rng.shuffle(xs)`
def shuffle (rng : Random K) (xs : List K) (s : rng.State) : List K × rng.State :=
  (List.range' 1 (xs.length - 1)).reverse.foldl
    (fun acc i =>
      let draw := rng.randbelow (i + 1) acc.2
      (swap acc.1 i draw.1, draw.2))
    (xs, s)

def diffOfMeans (control arm : List K) : K := arm.sum / arm.length - control.sum / control.length

/-- How often the difference of a shuffle reaches the observed one. Each shuffles the last. -/
def permHits (rng : Random K) (n0 : Nat) (obs : K) : Nat → List K → rng.State → Nat
  | 0, _, _ => 0
  | n + 1, pooled, s =>
    let shuffled := shuffle rng pooled s
    let hit := obs - 1e-15 ≤ |diffOfMeans (shuffled.1.take n0) (shuffled.1.drop n0)|
    (if hit then 1 else 0) + permHits rng n0 obs n shuffled.1 shuffled.2

def permutationP (rng : Random K) (control arm : List K) (nPerm : Nat) (seed : Int) : Option K :=
  if control.length < 2 ∨ arm.length < 2 then none
  else
    let hits := permHits rng control.length |diffOfMeans control arm| nPerm (control ++ arm)
      (rng.seed seed)
    some ((1 + hits) / (nPerm + 1))

/-! ## Effects -/

def hedgesG (m : Math K) (control arm : List K) : Option K :=
  match pooledSd m control arm with
  | none => none
  | some sp =>
    if sp = 0 then none
    else
      let n := control.length + arm.length
      some ((1 - (3 : Nat) / ((4 : Nat) * n - (9 : Nat))) * (diffOfMeans control arm / sp))

/-- The minimum detectable effect. -/
def mde (m : Math K) (control arm : List K) (alpha power : K) : Option K :=
  if control.length < 2 ∨ arm.length < 2 then none
  else do
    let sp ← pooledSd m control arm
    let df := control.length + arm.length - 2
    let tcrit ← tPpf m (1 - alpha / (2 : Nat)) df
    let tpow ← tPpf m power df
    return (tcrit + tpow) * sp * m.sqrt (1 / control.length + 1 / arm.length)

end Analyze

end FakeBigLittle
