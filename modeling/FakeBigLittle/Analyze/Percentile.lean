import FakeBigLittle.Analyze.Resample
import FakeBigLittle.Pinger.Spec
import FakeBigLittle.Quantile

/-!
# The two percentiles

`pct` of `pinger.c` and `_percentile_of_sorted` of `scripts/analyze.py` are one quantile, written
in two ways, and neither reads outside of its array.
-/

namespace FakeBigLittle

open Quantile

/-- A read of an array; `none` where the index is outside of it. -/
def entryAt {K : Type} (s : List K) (i : Int) : Option K := if i < 0 then none else s[i.toNat]?

/-- `(long)x`, and `int(x)`. -/
def truncate (x : ℚ) : Int := if 0 ≤ x then ⌊x⌋ else ⌈x⌉

namespace Analyze

section Python

variable {K : Type} [Field K] [LinearOrder K] [FloorRing K]

/-- `percentileOfSorted` with its reads checked. -/
def percentileRead (s : List K) (q : K) : Option K :=
  match s with
  | [] => none
  | [x] => some x
  | _ => do
    let idx := q * (s.length - 1 : Nat)
    let lo := ⌊idx⌋
    let hi := min (lo + 1) ((s.length - 1 : Nat) : Int)
    let frac := idx - lo
    let a ← entryAt s lo
    let b ← entryAt s hi
    return a * (1 - frac) + b * frac

variable [IsStrictOrderedRing K] {s : List K} {q : K}

omit [FloorRing K] in
theorem position_nonneg (s : List K) (hq : 0 ≤ q) : 0 ≤ q * (s.length - 1 : Nat) :=
  mul_nonneg hq (Nat.cast_nonneg _)

omit [FloorRing K] in
theorem position_le (s : List K) (hq : q ≤ 1) :
    q * (s.length - 1 : Nat) ≤ ((s.length - 1 : Nat) : K) := by
  have hlast : (0 : K) ≤ ((s.length - 1 : Nat) : K) := Nat.cast_nonneg _
  exact mul_le_of_le_one_left hlast hq

theorem position_cell (hs : s ≠ []) (h0 : 0 ≤ q) (h1 : q ≤ 1) :
    cell (q * (s.length - 1 : Nat)) < s.length := by
  have hlength := List.length_pos_of_ne_nil hs
  apply cell_lt (position_nonneg s h0)
  apply (position_le s h1).trans_lt
  exact_mod_cast Nat.sub_lt hlength Nat.one_pos

theorem percentileOfSorted_eq_value (hs : s ≠ []) :
    percentileOfSorted s q = some (value s (q * (s.length - 1 : Nat))) := by
  match s with
  | [] => exact absurd rfl hs
  | [x] =>
    have hzero : cell (0 : K) = 0 := by
      unfold cell
      rw [Int.floor_zero, Int.toNat_zero]
    simp [percentileOfSorted, value, hzero]
  | x :: y :: s =>
    unfold percentileOfSorted value cell
    simp only [Option.some.injEq]
    ring

theorem percentileRead_eq (hs : s ≠ []) (h0 : 0 ≤ q) (h1 : q ≤ 1) :
    percentileRead s q = percentileOfSorted s q := by
  have hcell := position_cell hs h0 h1
  have hfloor := Int.floor_nonneg.mpr (position_nonneg s h0)
  match s with
  | [] => exact absurd rfl hs
  | [x] => rfl
  | x :: y :: s =>
    obtain ⟨lo, hlo⟩ := Int.eq_ofNat_of_zero_le hfloor
    unfold cell at hcell
    unfold percentileRead percentileOfSorted entryAt
    simp only [hlo, Int.toNat_natCast] at hcell ⊢
    have hhi : min ((lo : Int) + 1) (((x :: y :: s).length - 1 : Nat) : Int) =
        (min (lo + 1) ((x :: y :: s).length - 1) : Nat) := by omega
    have hlast : min (lo + 1) ((x :: y :: s).length - 1) < (x :: y :: s).length := by
      rw [List.length_cons]
      omega
    rw [hhi, Int.toNat_natCast, if_neg (by omega), if_neg (by omega),
      List.getElem?_eq_getElem hcell, List.getElem?_eq_getElem hlast,
      List.getD_eq_getElem _ _ hcell, List.getD_eq_getElem _ _ hlast, Int.cast_natCast]
    rfl

end Python

end Analyze

namespace Pinger

/-- `pct` with its reads checked. -/
def pctRead (sorted : List ℚ) (n : Int) (p : ℚ) : Option ℚ := do
  let idx := p / 100 * (n - 1)
  let i := truncate idx
  if n ≤ 0 then none
  else if n - 1 ≤ i then entryAt sorted (n - 1)
  else
    let a ← entryAt sorted i
    let b ← entryAt sorted (i + 1)
    return a + (idx - i) * (b - a)

section C

variable {s : List ℚ} {p : ℚ}

/-- The last cell has a branch of its own. -/
theorem pct_eq_value (hs : s ≠ []) (h0 : 0 ≤ p) (h1 : p ≤ 100) :
    pct s p = some (value s (p / 100 * (s.length - 1 : Nat))) := by
  have hlength := List.length_pos_of_ne_nil hs
  have hq0 : 0 ≤ p / 100 := by linarith
  have hq1 : p / 100 ≤ 1 := by linarith
  have hcell := Analyze.position_cell hs hq0 hq1
  have hlow := cell_le (Analyze.position_nonneg s hq0)
  have hhigh := Analyze.position_le s hq1
  unfold pct value
  simp only [← Nat.cast_pred hlength]
  change (if s.length = 0 then none
    else if s.length - 1 ≤ cell (p / 100 * (s.length - 1 : Nat)) then _ else _) = _
  rw [if_neg (by omega)]
  split_ifs with hend
  · have hsame : cell (p / 100 * (s.length - 1 : Nat)) = s.length - 1 := by omega
    have hzero : p / 100 * (s.length - 1 : Nat) - ((s.length - 1 : Nat) : ℚ) = 0 := by
      rw [hsame] at hlow
      linarith
    rw [hsame, hzero, zero_mul, add_zero]
  · rw [min_eq_left (by omega)]
    rfl

theorem pctRead_eq (hs : s ≠ []) (h0 : 0 ≤ p) : pctRead s s.length p = pct s p := by
  have hlength := List.length_pos_of_ne_nil hs
  have hidx : 0 ≤ p / 100 * ((s.length : ℚ) - 1) := by
    rw [← Nat.cast_pred hlength]
    exact Analyze.position_nonneg s (by linarith)
  obtain ⟨i, hi⟩ := Int.eq_ofNat_of_zero_le (Int.floor_nonneg.mpr hidx)
  unfold pctRead pct truncate entryAt
  simp only [Int.cast_natCast, if_pos hidx, hi, Int.toNat_natCast]
  have hcount : ¬((s.length : Int) ≤ 0) := by omega
  have hcount' : ¬s.length = 0 := by omega
  by_cases hend : s.length - 1 ≤ i
  · have hlast : s.length - 1 < s.length := by omega
    have hend' : (s.length : Int) - 1 ≤ i := by omega
    have hindex : ¬((s.length : Int) - 1 < 0) := by omega
    simp only [if_neg hcount, if_neg hcount', if_pos hend, if_pos hend', if_neg hindex]
    rw [show ((s.length : Int) - 1).toNat = s.length - 1 from by omega,
      List.getElem?_eq_getElem hlast, List.getD_eq_getElem _ _ hlast]
  · have hnext : i + 1 < s.length := by omega
    have hhere : i < s.length := by omega
    have hend' : ¬((s.length : Int) - 1 ≤ i) := by omega
    have hindex : ¬((i : Int) < 0) := by omega
    have hindex' : ¬((i : Int) + 1 < 0) := by omega
    simp only [if_neg hcount, if_neg hcount', if_neg hend, if_neg hend', if_neg hindex,
      if_neg hindex']
    rw [show ((i : Int) + 1).toNat = i + 1 from by omega, List.getElem?_eq_getElem hhere,
      List.getElem?_eq_getElem hnext, List.getD_eq_getElem _ _ hhere,
      List.getD_eq_getElem _ _ hnext]
    rfl

end C

end Pinger

/-- The percentile `p` of both programs, also where every read is checked. -/
structure IsPercentile (s : List ℚ) (p v : ℚ) : Prop where
  pct : Pinger.pct s p = some v
  percentile : Analyze.percentileOfSorted s (p / 100) = some v
  pctRead : Pinger.pctRead s s.length p = some v
  percentileRead : Analyze.percentileRead s (p / 100) = some v

theorem isPercentile_value {s : List ℚ} {p : ℚ} (hs : s ≠ []) (h0 : 0 ≤ p) (h1 : p ≤ 100) :
    IsPercentile s p (value s (p / 100 * (s.length - 1 : Nat))) := by
  have hpct := Pinger.pct_eq_value hs h0 h1
  have hpercentile := Analyze.percentileOfSorted_eq_value (q := p / 100) hs
  constructor
  · exact hpct
  · exact hpercentile
  · rw [Pinger.pctRead_eq hs h0]
    exact hpct
  · rw [Analyze.percentileRead_eq hs (by linarith) (by linarith)]
    exact hpercentile

/-- **Both programs have the same percentile, between the ends, and it rises with `p`.** -/
theorem percentiles_agree {s : List ℚ} (hs : s ≠ []) (hsorted : s.Pairwise (· ≤ ·)) {p q : ℚ}
    (hp : 0 ≤ p) (hpq : p ≤ q) (hq : q ≤ 100) :
    ∃ v w, IsPercentile s p v ∧ IsPercentile s q w ∧
      s.head hs ≤ v ∧ v ≤ s.getLast hs ∧ v ≤ w := by
  have hp1 : p / 100 ≤ 1 := by linarith
  have hq1 : q / 100 ≤ 1 := by linarith
  have hp0 : 0 ≤ p / 100 := by linarith
  have hpos := Analyze.position_nonneg s hp0
  have hcellp := Analyze.position_cell hs hp0 hp1
  have hcellq := Analyze.position_cell hs (by linarith) hq1
  have hlength := List.length_pos_of_ne_nil hs
  obtain ⟨hlow, hhigh⟩ := value_bounds hsorted hpos hcellp
  refine ⟨_, _, isPercentile_value hs hp (hpq.trans hq), isPercentile_value hs (hp.trans hpq) hq,
    ?_, ?_, ?_⟩
  · rwa [List.getD_eq_getElem _ _ hlength, ← List.head_eq_getElem hs] at hlow
  · rwa [List.getD_eq_getElem _ _ (by omega), ← List.getLast_eq_getElem hs] at hhigh
  · apply value_mono hsorted hpos _ hcellq
    gcongr

/-- The median and the upper quartile of four latencies. -/
theorem percentiles_agree_four :
    ∃ v w, IsPercentile [1, 2, 4, 9] 50 v ∧ IsPercentile [1, 2, 4, 9] 75 w ∧
      1 ≤ v ∧ v ≤ 9 ∧ v ≤ w := by
  have hsorted : ([1, 2, 4, 9] : List ℚ).Pairwise (· ≤ ·) := by norm_num
  exact percentiles_agree (List.cons_ne_nil 1 [2, 4, 9]) hsorted (by norm_num) (by norm_num)
    (by norm_num)

end FakeBigLittle
