import FakeBigLittle.Bisect
import FakeBigLittle.Dict
import Mathlib.Algebra.BigOperators.Group.List.Basic
import Mathlib.Data.Rat.Cast.OfScientific

/-!
# Numeric primitives

The statistics of `scripts/analyze.py`, over any ordered field, with the functions of the `math`
library as parameters. `none` is `None`.
-/

namespace FakeBigLittle

namespace Analyze

open Dict

variable {K : Type} [Field K] [LinearOrder K]

/-- What is used of the `math` library. -/
structure Math (K : Type) where
  sqrt : K → K
  erf : K → K
  exp : K → K
  log : K → K
  log1p : K → K
  lgamma : K → K
  pow : K → K → K
  pi : K

/-! ## Moments -/

def mean (xs : List K) : Option K := if xs = [] then none else some (xs.sum / xs.length)

def median (xs : List K) : Option K :=
  let s := sortBy id xs
  let mid := xs.length / 2
  if xs = [] then none
  else if xs.length % 2 = 1 then s[mid]?
  else some (0.5 * (s.getD (mid - 1) 0 + s.getD mid 0))

/-- The squares of what is left without the mean. -/
def sumSquares (xs : List K) : K := (xs.map fun x => (x - xs.sum / xs.length) ^ 2).sum

def sd (m : Math K) (xs : List K) : Option K :=
  if xs.length < 2 then none else some (m.sqrt (sumSquares xs / (xs.length - 1 : Nat)))

def pooledSd (m : Math K) (a b : List K) : Option K :=
  if a.length < 2 ∨ b.length < 2 then none
  else
    match sd m a, sd m b with
    | some sa, some sb =>
      some (m.sqrt (((a.length - 1 : Nat) * sa * sa + (b.length - 1 : Nat) * sb * sb) /
        (a.length + b.length - 2 : Nat)))
    | _, _ => none

/-! ## The normal distribution -/

def normCdf (m : Math K) (z : K) : K := 0.5 * (1 + m.erf (z / m.sqrt (2 : Nat)))

/-- A polynomial from its highest coefficient down. -/
def horner (coefficients : List K) (x : K) : K := coefficients.foldl (fun acc c => acc * x + c) 0

-- `a`, `b`, `c` and `d` of `norm_ppf`
def ppfA : List K :=
  [-39.69683028665376, 220.9460984245205, -275.9285104469687, 138.3577518672690,
    -30.66479806614716, 2.506628277459239]

def ppfB : List K :=
  [-54.47609879822406, 161.5858368580409, -155.6989798598866, 66.80131188771972,
    -13.28068155288572]

def ppfC : List K :=
  [-0.007784894002430293, -0.3223964580411365, -2.400758277161838, -2.549732539343734,
    4.374664141464968, 2.938163982698783]

def ppfD : List K :=
  [0.007784695709041462, 0.3224671290700398, 2.445134137142996, 3.754408661907416]

/-- The rational approximation in a tail of weight `p`. -/
def ppfTail (m : Math K) (p : K) : K :=
  let q := m.sqrt (-(2 : Nat) * m.log p)
  horner ppfC q / horner (ppfD ++ [1]) q

def ppfCentre (p : K) : K :=
  let q := p - 0.5
  horner ppfA (q * q) * q / horner (ppfB ++ [1]) (q * q)

/-- The quantile; the infinities at 0 and 1 are `none`. -/
def normPpf (m : Math K) (p : K) : Option K :=
  if p ≤ 0 then none
  else if 1 ≤ p then none
  else
    let x :=
      if p < 0.02425 then ppfTail m p
      else if 1 - 0.02425 < p then -ppfTail m (1 - p)
      else ppfCentre p
    let e := normCdf m x - p
    let u := e * m.sqrt ((2 : Nat) * m.pi) * m.exp (x * x / (2 : Nat))
    some (x - u / (1 + x * u / (2 : Nat)))

/-! ## Student's distribution -/

def fpMin : K := 1e-300

-- `if abs(d) < FPMIN: d = FPMIN`
def awayFromZero (d : K) : K := if |d| < fpMin then fpMin else d

structure BetaState (K : Type) where
  c : K
  d : K
  h : K

/-- One half of a round: the next coefficient is taken in. -/
def betaStep (aa : K) (s : BetaState K) : BetaState K :=
  let d := 1 / awayFromZero (1 + aa * s.d)
  let c := awayFromZero (1 + aa / s.c)
  ⟨c, d, s.h * (d * c)⟩

def betaLoop (a b x : K) : Nat → Nat → BetaState K → K
  | 0, _, s => s.h
  | fuel + 1, m, s =>
    let even := betaStep (m * (b - m) * x / ((a - 1 + (2 * m : Nat)) * (a + (2 * m : Nat)))) s
    let odd := betaStep
      (-(a + m) * (a + b + m) * x / ((a + (2 * m : Nat)) * (a + 1 + (2 * m : Nat)))) even
    if |odd.d * odd.c - 1| < 3.0e-16 then odd.h else betaLoop a b x fuel (m + 1) odd

def betacf (a b x : K) : K :=
  let d := 1 / awayFromZero (1 - (a + b) * x / (a + 1))
  betaLoop a b x 300 1 ⟨1, d, d⟩

def betainc (m : Math K) (a b x : K) : K :=
  let lbeta := m.lgamma (a + b) - m.lgamma a - m.lgamma b
  if x ≤ 0 then 0
  else if 1 ≤ x then 1
  else if x < (a + 1) / (a + b + (2 : Nat)) then
    m.exp (lbeta + a * m.log x + b * m.log1p (-x)) * betacf a b x / a
  else 1 - m.exp (lbeta + b * m.log1p (-x) + a * m.log x) * betacf b a (1 - x) / b

/-- `none` is the NaN without a degree of freedom. -/
def tCdf (m : Math K) (t : K) (df : Nat) : Option K :=
  if df = 0 then none
  else
    let p := 0.5 * betainc m (df / (2 : Nat)) 0.5 (df / (df + t * t))
    some (if t ≤ 0 then p else 1 - p)

def tPpf (m : Math K) (p : K) (df : Nat) : Option K :=
  if df = 0 then none
  else
    let ends := Bisect.search (fun t => !((tCdf m t df).any fun q => q < p)) 1e-10 200
      (-(1000 : Nat), (1000 : Nat))
    some (0.5 * (ends.1 + ends.2))

/-! ## Ranks -/

/-- The ties of the first index in the order get the mean of their positions from `i` on. -/
def assignRanks (xs : List K) (i : Nat) (order : List Nat) (ranks : List K) : List K :=
  match order with
  | [] => ranks
  | first :: rest =>
    let ties := rest.takeWhile fun k => xs[k]? = xs[first]?
    let avg : K := (i + (i + ties.length) : Nat) / (2 : Nat) + 1
    assignRanks xs (i + ties.length + 1) (rest.drop ties.length)
      ((first :: ties).foldl (fun ranks k => ranks.set k avg) ranks)
termination_by order.length
decreasing_by
  rw [List.length_drop, List.length_cons]
  omega

def rankdata (xs : List K) : List K :=
  assignRanks xs 0 (sortBy (fun i => xs.getD i 0) (List.range xs.length))
    (List.replicate xs.length 0)

def pearson (m : Math K) (xs ys : List K) : Option K :=
  let n := xs.length
  let mx := xs.sum / n
  let my := ys.sum / n
  let sxy := (List.zipWith (fun a b => (a - mx) * (b - my)) xs ys).sum
  let sxx := (xs.map fun a => (a - mx) ^ 2).sum
  let syy := (ys.map fun b => (b - my) ^ 2).sum
  if n < 3 then none
  else if sxx ≤ 0 ∨ syy ≤ 0 then none
  else some (sxy / m.sqrt (sxx * syy))

/-- A pair where both numbers are there. -/
def completePairs (xs ys : List (Option K)) : List (K × K) :=
  (xs.zip ys).filterMap fun p =>
    match p with
    | (some a, some b) => some (a, b)
    | _ => none

def spearman (m : Math K) (xs ys : List (Option K)) : Option K :=
  let pairs := completePairs xs ys
  if pairs.length < 3 then none
  else pearson m (rankdata (pairs.map Prod.fst)) (rankdata (pairs.map Prod.snd))

end Analyze

end FakeBigLittle
