import FakeBigLittle.Analyze.Wording
import Mathlib.Algebra.BigOperators.Ring.List
import Mathlib.Data.Rat.Sqrt

/-!
# Units

A metric in another unit is every value times a factor. What `contrast` says in the unit is
scaled with it, and what it concludes is not.
-/

namespace FakeBigLittle

open CString Dict

namespace Analyze

section Field

variable {K : Type} [Field K] [LinearOrder K] {m : Math K} {a : K}

/-- The values in a unit that is `a` times as fine. -/
def rescale (a : K) (xs : List K) : List K := xs.map (a * ·)

/-- How the roots of the `math` library scale. -/
structure Math.Scales (m : Math K) (a : K) : Prop where
  sqrt : ∀ x, m.sqrt (a ^ 2 * x) = a * m.sqrt x
  pow : ∀ x, m.pow (a ^ 2 * x) 1.5 = a ^ 3 * m.pow x 1.5

/-- A statistic of the values in their unit. -/
def InUnit (a : K) (stat : List (List K) → Option K) : Prop :=
  ∀ groups, stat (groups.map (rescale a)) = (stat groups).map (a * ·)

/-! ## Moments -/

omit [LinearOrder K] in
theorem sum_rescale (a : K) (xs : List K) : (rescale a xs).sum = a * xs.sum := by
  unfold rescale
  rw [List.sum_map_mul_left, List.map_id']

omit [LinearOrder K] in
theorem length_rescale (a : K) (xs : List K) : (rescale a xs).length = xs.length :=
  List.length_map ..

omit [LinearOrder K] in
theorem mean_rescale (a : K) (xs : List K) : mean (rescale a xs) = (mean xs).map (a * ·) := by
  unfold mean
  rw [sum_rescale, length_rescale]
  by_cases hxs : xs = []
  · rw [if_pos hxs, if_pos (by rw [hxs]; rfl)]
    rfl
  · rw [if_neg hxs, if_neg (by simpa [rescale] using hxs)]
    exact congrArg some (mul_div_assoc ..)

omit [LinearOrder K] in
theorem statDiff_inUnit (a : K) : InUnit a statDiff := by
  intro groups
  have hmean : ∀ i : Nat, ((groups.map (rescale a))[i]?.bind mean) =
      (groups[i]?.bind mean).map (a * ·) := by
    intro i
    rw [List.getElem?_map]
    cases groups[i]? with
    | none => rfl
    | some g => exact mean_rescale a g
  unfold statDiff
  rw [hmean, hmean]
  cases groups[0]?.bind mean with
  | none => rfl
  | some control =>
    cases groups[1]?.bind mean with
    | none => rfl
    | some arm => exact congrArg some (mul_sub a arm control).symm

omit [LinearOrder K] in
theorem sumSquares_rescale (a : K) (xs : List K) :
    sumSquares (rescale a xs) = a ^ 2 * sumSquares xs := by
  unfold sumSquares
  rw [sum_rescale, length_rescale, ← List.sum_map_mul_left]
  unfold rescale
  rw [List.map_map]
  congr 1
  apply List.map_congr_left
  intro x _
  show (a * x - a * xs.sum / xs.length) ^ 2 = a ^ 2 * (x - xs.sum / xs.length) ^ 2
  rw [mul_div_assoc, ← mul_sub, mul_pow]

omit [LinearOrder K] in
theorem sd_rescale (hm : m.Scales a) (xs : List K) :
    sd m (rescale a xs) = (sd m xs).map (a * ·) := by
  unfold sd
  rw [length_rescale, sumSquares_rescale, mul_div_assoc, hm.sqrt]
  split_ifs <;> rfl

omit [LinearOrder K] in
theorem pooledSd_rescale (hm : m.Scales a) (xs ys : List K) :
    pooledSd m (rescale a xs) (rescale a ys) = (pooledSd m xs ys).map (a * ·) := by
  unfold pooledSd
  rw [length_rescale, length_rescale, sd_rescale hm, sd_rescale hm]
  split_ifs
  · rfl
  cases sd m xs with
  | none => rfl
  | some sx =>
    cases sd m ys with
    | none => rfl
    | some sy =>
      have hsquares : ((xs.length - 1 : Nat) * (a * sx) * (a * sx) +
          (ys.length - 1 : Nat) * (a * sy) * (a * sy)) / (xs.length + ys.length - 2 : Nat) =
          a ^ 2 * (((xs.length - 1 : Nat) * sx * sx + (ys.length - 1 : Nat) * sy * sy) /
            (xs.length + ys.length - 2 : Nat)) := by ring
      show some (m.sqrt _) = some (a * m.sqrt _)
      rw [hsquares, hm.sqrt]

/-! ## Resamples -/

section Draws

variable [FloorRing K] (rng : Random K)

omit [LinearOrder K] in
theorem getD_rescale (a : K) (xs : List K) (i : Nat) :
    (rescale a xs).getD i 0 = a * xs.getD i 0 := by
  unfold rescale
  rw [List.getD_eq_getElem?_getD, List.getD_eq_getElem?_getD, List.getElem?_map]
  cases xs[i]? with
  | none => exact (mul_zero a).symm
  | some x => rfl

theorem choices_rescale (a : K) (g : List K) (k : Nat) (s : rng.State) :
    choices rng (rescale a g) k s =
      (rescale a (choices rng g k s).1, (choices rng g k s).2) := by
  induction k generalizing s with
  | zero => rfl
  | succ k ih =>
    unfold choices
    simp only [ih, length_rescale, getD_rescale]
    rfl

theorem resample_rescale (a : K) (groups : List (List K)) (s : rng.State) :
    resample rng (groups.map (rescale a)) s =
      ((resample rng groups s).1.map (rescale a), (resample rng groups s).2) := by
  induction groups generalizing s with
  | nil => rfl
  | cons g groups ih =>
    rw [List.map_cons]
    unfold resample
    simp only [ih, length_rescale, choices_rescale]
    rfl

/-- The same draws, each statistic in the new unit. -/
theorem replicates_rescale {stat : List (List K) → Option K} (hstat : InUnit a stat)
    (groups : List (List K)) (n : Nat) (s : rng.State) :
    replicates rng (groups.map (rescale a)) stat n s =
      rescale a (replicates rng groups stat n s) := by
  induction n generalizing s with
  | zero => rfl
  | succ n ih =>
    unfold replicates
    simp only [resample_rescale, hstat (resample rng groups s).1, ih]
    unfold rescale
    rw [List.map_append]
    cases stat (resample rng groups s).1 <;> rfl

end Draws

/-! ## The jackknife -/

omit [Field K] [LinearOrder K] in
theorem mapM_map {α : Type} {F : α → Option K} (f : K → K) (xs : List α) :
    (xs.mapM fun x => (F x).map f) = (xs.mapM F).map (List.map f) := by
  induction xs with
  | nil => rfl
  | cons x xs ih =>
    rw [List.mapM_cons, List.mapM_cons, ih]
    cases F x with
    | none => rfl
    | some y =>
      cases xs.mapM F with
      | none => rfl
      | some ys => rfl

omit [LinearOrder K] in
theorem jackknife_rescale {stat : List (List K) → Option K} (hstat : InUnit a stat)
    (groups : List (List K)) :
    jackknife (groups.map (rescale a)) stat = (jackknife groups stat).map (rescale a) := by
  have hshort : ((groups.map (rescale a)).any fun g => g.length < 3) =
      groups.any fun g => g.length < 3 := by
    rw [List.any_map]
    congr 1
    funext g
    show decide ((rescale a g).length < 3) = _
    rw [length_rescale]
  have hpairs : (((groups.map (rescale a)).zipIdx.flatMap fun g =>
        (List.range g.1.length).map fun i => (g, i)).mapM fun gi =>
          stat ((groups.map (rescale a)).set gi.1.2 (gi.1.1.eraseIdx gi.2))) =
      (groups.zipIdx.flatMap fun g => (List.range g.1.length).map fun i => (g, i)).mapM fun gi =>
        (stat (groups.set gi.1.2 (gi.1.1.eraseIdx gi.2))).map (a * ·) := by
    have hlist : ((groups.map (rescale a)).zipIdx.flatMap fun g =>
        (List.range g.1.length).map fun i => (g, i)) =
        (groups.zipIdx.flatMap fun g => (List.range g.1.length).map fun i => (g, i)).map
          fun gi => ((rescale a gi.1.1, gi.1.2), gi.2) := by
      rw [List.zipIdx_map, List.flatMap_map, List.map_flatMap]
      congr 1
      funext g
      rw [List.map_map]
      show (List.range (rescale a g.1).length).map _ = _
      rw [length_rescale]
      rfl
    rw [hlist, List.mapM_map]
    congr 1
    funext gi
    show stat ((groups.map (rescale a)).set gi.1.2 ((rescale a gi.1.1).eraseIdx gi.2)) = _
    rw [← hstat, List.map_set]
    unfold rescale
    rw [List.eraseIdx_map]
  unfold jackknife
  rw [hshort, hpairs, mapM_map]
  split_ifs <;> rfl

/-! ## Intervals -/

section Order

variable [IsStrictOrderedRing K]

theorem sortBy_rescale (ha : 0 < a) (xs : List K) :
    sortBy id (rescale a xs) = rescale a (sortBy id xs) := by
  refine (List.map_mergeSort (f := (a * ·)) fun x _ y _ => ?_).symm
  simp only [id_eq, mul_le_mul_iff_right₀ ha]

theorem shareBelow_rescale (ha : 0 < a) (theta : K) (reps : List K) :
    shareBelow (a * theta) (rescale a reps) = shareBelow theta reps := by
  have hbelow : (rescale a reps).countP (· < a * theta) = reps.countP (· < theta) := by
    unfold rescale
    rw [List.countP_map]
    congr 1
    funext x
    simp only [Function.comp_apply, mul_lt_mul_iff_right₀ ha]
  have hsame : (rescale a reps).countP (· = a * theta) = reps.countP (· = theta) := by
    unfold rescale
    rw [List.countP_map]
    congr 1
    funext x
    simp only [Function.comp_apply, mul_right_inj' ha.ne']
  unfold shareBelow
  rw [hbelow, hsame, length_rescale]

/-- The skewness has no unit. -/
theorem acceleration_rescale (hm : m.Scales a) (ha : 0 < a) (jack : List K) :
    acceleration m (rescale a jack) = acceleration m jack := by
  have hpowers : ∀ n : Nat, ((rescale a jack).map fun v =>
      ((rescale a jack).sum / jack.length - v) ^ n).sum =
      a ^ n * (jack.map fun v => (jack.sum / jack.length - v) ^ n).sum := by
    intro n
    rw [sum_rescale, ← List.sum_map_mul_left]
    unfold rescale
    rw [List.map_map]
    congr 1
    apply List.map_congr_left
    intro v _
    show (a * jack.sum / jack.length - a * v) ^ n = _
    rw [mul_div_assoc, ← mul_sub, mul_pow]
  have hcube : a ^ 3 ≠ 0 := pow_ne_zero 3 ha.ne'
  unfold acceleration
  simp only [length_rescale, hpowers, hm.pow, mul_pos_iff_of_pos_left (pow_pos ha 2)]
  rw [mul_left_comm, mul_div_mul_left _ _ hcube]

variable [FloorRing K]

omit [IsStrictOrderedRing K] in
theorem percentileOfSorted_rescale (a : K) (s : List K) (q : K) :
    percentileOfSorted (rescale a s) q = (percentileOfSorted s q).map (a * ·) := by
  match s with
  | [] => rfl
  | [x] => rfl
  | x :: y :: s =>
    have hlength := length_rescale a (x :: y :: s)
    have hget := getD_rescale a (x :: y :: s)
    unfold percentileOfSorted
    show some (_ * _ + _ * _) = some (a * (_ * _ + _ * _))
    simp only [hlength, hget]
    congr 1
    ring

/-- The interval in the new unit. -/
def Interval.rescale (a : K) (i : Interval K) : Interval K :=
  { i with point := i.point.map (a * ·), lo := i.lo.map (a * ·), hi := i.hi.map (a * ·) }

theorem intervalOf_rescale (hm : m.Scales a) (ha : 0 < a) {stat : List (List K) → Option K}
    (hstat : InUnit a stat) (groups : List (List K)) (nBoot : Nat) (alpha theta : K)
    (reps : List K) :
    intervalOf m (groups.map (rescale a)) stat nBoot alpha (a * theta) (rescale a reps) =
      (intervalOf m groups stat nBoot alpha theta reps).rescale a := by
  have haccel : (jackknife (groups.map (rescale a)) stat).bind (acceleration m) =
      (jackknife groups stat).bind (acceleration m) := by
    rw [jackknife_rescale hstat]
    cases jackknife groups stat with
    | none => rfl
    | some jack => exact acceleration_rescale hm ha jack
  unfold intervalOf
  simp only [shareBelow_rescale ha, haccel, percentileOfSorted_rescale]
  generalize Option.bind _ (bcaLevels (normPpf m) (normCdf m) alpha (shareBelow theta reps)) =
    levels
  cases levels <;> rfl

theorem bootstrapCi_rescale (hm : m.Scales a) (ha : 0 < a) (rng : Random K)
    {stat : List (List K) → Option K} (hstat : InUnit a stat) (groups : List (List K))
    (nBoot : Nat) (alpha : K) (seed : Int) :
    bootstrapCi m rng (groups.map (rescale a)) stat nBoot alpha seed =
      (bootstrapCi m rng groups stat nBoot alpha seed).rescale a := by
  have hshort : ((groups.map (rescale a)).any fun g => g.length < 2) =
      groups.any fun g => g.length < 2 := by
    rw [List.any_map]
    congr 1
    funext g
    show decide ((rescale a g).length < 2) = _
    rw [length_rescale]
  unfold bootstrapCi
  simp only [hshort, List.map_eq_nil_iff, hstat groups]
  by_cases hfew : (groups.any fun g => g.length < 2) = true ∨ groups = []
  · rw [if_pos hfew, if_pos hfew]
    rfl
  rw [if_neg hfew, if_neg hfew]
  cases stat groups with
  | none => rfl
  | some theta =>
    simp only [Option.map_some, replicates_rescale rng hstat, length_rescale,
      sortBy_rescale ha, intervalOf_rescale hm ha hstat]
    split_ifs <;> rfl

theorem diffCi_rescale (hm : m.Scales a) (ha : 0 < a) (rng : Random K) (control arm : List K)
    (seed : Int) :
    diffCi m rng (rescale a control) (rescale a arm) seed =
      (diffCi m rng control arm seed).rescale a :=
  bootstrapCi_rescale hm ha rng (statDiff_inUnit a) [control, arm] nBoot alpha seed

/-! ## Effects -/

omit [IsStrictOrderedRing K] [FloorRing K] [LinearOrder K] in
theorem diffOfMeans_rescale (a : K) (control arm : List K) :
    diffOfMeans (rescale a control) (rescale a arm) = a * diffOfMeans control arm := by
  unfold diffOfMeans
  rw [sum_rescale, sum_rescale, length_rescale, length_rescale]
  ring

omit [FloorRing K] in
theorem hedgesG_rescale (hm : m.Scales a) (ha : 0 < a) (control arm : List K) :
    hedgesG m (rescale a control) (rescale a arm) = hedgesG m control arm := by
  unfold hedgesG
  rw [pooledSd_rescale hm, diffOfMeans_rescale, length_rescale, length_rescale]
  cases pooledSd m control arm with
  | none => rfl
  | some sp =>
    simp only [Option.map_some, mul_eq_zero, ha.ne', false_or, mul_div_mul_left _ _ ha.ne']

omit [IsStrictOrderedRing K] [FloorRing K] in
theorem mde_rescale (hm : m.Scales a) (control arm : List K) (alpha power : K) :
    mde m (rescale a control) (rescale a arm) alpha power =
      (mde m control arm alpha power).map (a * ·) := by
  unfold mde
  rw [pooledSd_rescale hm, length_rescale, length_rescale]
  split_ifs
  · rfl
  cases pooledSd m control arm with
  | none => rfl
  | some sp =>
    simp only [Option.map_some, Option.bind_eq_bind, Option.bind_some]
    cases tPpf m (1 - alpha / (2 : Nat)) (control.length + arm.length - 2) with
    | none => rfl
    | some tcrit =>
      cases tPpf m power (control.length + arm.length - 2) with
      | none => rfl
      | some tpow =>
        show some (_ * (a * sp) * _) = some (a * (_ * sp * _))
        congr 1
        ring

end Order

end Field

/-! ## Contrasts -/

/-- The row with the metric in a unit that is `a` times as fine. -/
def Row.rescale (metric : Text) (a : ℚ) (r : Row) : Row :=
  { r with col := fun k => if k = metric then (r.col k).map (a * ·) else r.col k }

/-- The numbers with the unit are scaled. What has no unit stays, and so does the conclusion. -/
structure SameConclusion (a : ℚ) (c c' : ContrastRecord) : Prop where
  counts : c'.nControl = c.nControl ∧ c'.nArm = c.nArm
  means : c'.meanControl = c.meanControl.map (a * ·) ∧ c'.meanArm = c.meanArm.map (a * ·)
  diff : c'.diff = c.diff.map (a * ·)
  interval : c'.ciLo = c.ciLo.map (a * ·) ∧ c'.ciHi = c.ciHi.map (a * ·)
  ciMethod : c'.ciMethod = c.ciMethod
  mdeAbs : c'.mdeAbs = c.mdeAbs.map (a * ·)
  shares : c'.pctChange = c.pctChange ∧ c'.mdePct = c.mdePct
  hedgesG : c'.hedgesG = c.hedgesG
  detectable : c'.detectable = c.detectable
  verdict : c'.verdict = c.verdict

section Contrast

variable {a : ℚ}

theorem valuesOf_rescale (metric : Text) (a : ℚ) (rows : List Row) :
    valuesOf (rows.map (Row.rescale metric a)) metric = rescale a (valuesOf rows metric) := by
  unfold valuesOf rescale
  rw [List.filterMap_map, List.map_filterMap]
  congr 1
  funext r
  exact if_pos rfl

theorem share_rescale (ha : 0 < a) (x y : ℚ) : share (a * x) (a * y) = share x y := by
  unfold share
  by_cases hy : y = 0
  · rw [if_pos hy, if_pos (by rw [hy, mul_zero])]
  · rw [if_neg hy, if_neg (mul_ne_zero ha.ne' hy), mul_left_comm, mul_div_mul_left _ _ ha.ne']

/-- An interval straddles zero in any unit. -/
theorem straddles_rescale (ha : 0 < a) {c c' : ContrastRecord}
    (hlo : c'.ciLo = c.ciLo.map (a * ·)) (hhi : c'.ciHi = c.ciHi.map (a * ·)) :
    c'.straddles = c.straddles := by
  unfold ContrastRecord.straddles
  rw [hlo, hhi]
  cases c.ciLo with
  | none => rfl
  | some lo =>
    cases c.ciHi with
    | none => rfl
    | some hi =>
      have hlow : a * lo ≤ 0 ↔ lo ≤ 0 := by
        rw [← not_lt, ← not_lt, mul_pos_iff_of_pos_left ha]
      simp only [Option.map_some, hlow, mul_nonneg_iff_of_pos_left ha]

theorem verdictOf_rescale (ha : 0 < a) {c c' : ContrastRecord} (hmetric : c'.metric = c.metric)
    (diff : ℚ) : c'.verdictOf (a * diff) = c.verdictOf diff := by
  have hsign : a * diff < 0 ↔ diff < 0 := by
    rw [← not_le, ← not_le, mul_nonneg_iff_of_pos_left ha]
  unfold ContrastRecord.verdictOf ContrastRecord.direction
  simp only [hmetric, hsign]

theorem conclude_rescale (ha : 0 < a) {c c' : ContrastRecord} (h : SameConclusion a c c')
    (hmetric : c'.metric = c.metric) (diff : ℚ) :
    SameConclusion a (c.conclude diff) (c'.conclude (a * diff)) := by
  have hstraddles := straddles_rescale ha h.interval.1 h.interval.2
  unfold ContrastRecord.conclude
  rw [hstraddles]
  cases c.straddles with
  | true =>
    exact ⟨h.counts, h.means, h.diff, h.interval, h.ciMethod, h.mdeAbs, h.shares, h.hedgesG, rfl,
      rfl⟩
  | false =>
    exact ⟨h.counts, h.means, h.diff, h.interval, h.ciMethod, h.mdeAbs, h.shares, h.hedgesG, rfl,
      verdictOf_rescale ha hmetric diff⟩

/-- What `contrast` knows before it concludes, out of the values and their means. -/
def measured (m : Math ℚ) (rng : Random ℚ) (seed : Int) (metric : Text) (xs ys : List ℚ)
    (mc ma : ℚ) : ContrastRecord where
  metric := metric
  unit := metricUnit metric
  nControl := xs.length
  nArm := ys.length
  meanControl := some mc
  meanArm := some ma
  diff := some (ma - mc)
  ciLo := (diffCi m rng xs ys seed).lo
  ciHi := (diffCi m rng xs ys seed).hi
  ciMethod := (diffCi m rng xs ys seed).method
  pctChange := share (ma - mc) mc
  hedgesG := hedgesG m xs ys
  pPerm := permutationP rng xs ys nPerm seed
  mdeAbs := mde m xs ys alpha power
  mdePct := (mde m xs ys alpha power).bind fun e => share e |mc|

theorem contrast_measured (m : Math ℚ) (rng : Random ℚ) (seed : Int)
    {controlRows armRows : List Row} {metric : Text} {mc ma : ℚ}
    (hlong : ¬((valuesOf controlRows metric).length < 2 ∨ (valuesOf armRows metric).length < 2))
    (hmc : mean (valuesOf controlRows metric) = some mc)
    (hma : mean (valuesOf armRows metric) = some ma) :
    contrast m rng seed controlRows armRows metric =
      (measured m rng seed metric (valuesOf controlRows metric) (valuesOf armRows metric) mc
        ma).conclude (ma - mc) := by
  unfold contrast
  rw [if_neg hlong, hmc, hma]
  rfl

theorem measured_rescale {m : Math ℚ} (rng : Random ℚ) (seed : Int) (ha : 0 < a)
    (hm : m.Scales a) (metric : Text) (xs ys : List ℚ) (mc ma : ℚ) :
    SameConclusion a (measured m rng seed metric xs ys mc ma)
      (measured m rng seed metric (rescale a xs) (rescale a ys) (a * mc) (a * ma)) where
  counts := ⟨length_rescale a xs, length_rescale a ys⟩
  means := ⟨rfl, rfl⟩
  diff := congrArg some (mul_sub a ma mc).symm
  interval :=
    ⟨congrArg Interval.lo (diffCi_rescale hm ha rng xs ys seed),
      congrArg Interval.hi (diffCi_rescale hm ha rng xs ys seed)⟩
  ciMethod := by
    show (diffCi m rng (rescale a xs) (rescale a ys) seed).method = _
    rw [diffCi_rescale hm ha]
    rfl
  mdeAbs := mde_rescale hm xs ys alpha power
  shares := by
    constructor
    · show share (a * ma - a * mc) (a * mc) = share (ma - mc) mc
      rw [← mul_sub, share_rescale ha]
    · show (mde m (rescale a xs) (rescale a ys) alpha power).bind (fun e => share e |a * mc|) = _
      rw [mde_rescale hm, abs_mul, abs_of_pos ha]
      show _ = (mde m xs ys alpha power).bind fun e => share e |mc|
      cases mde m xs ys alpha power with
      | none => rfl
      | some e => exact share_rescale ha e |mc|
  hedgesG := hedgesG_rescale hm ha xs ys
  detectable := rfl
  verdict := rfl

/-- **The conclusions do not depend on the unit.** With the metric in another unit the means,
the difference, the interval and the detectable effect are scaled. The method, the shares, the
effect size, whether it is detectable and the verdict stay. -/
theorem contrast_rescale (m : Math ℚ) (rng : Random ℚ) (seed : Int) (a : ℚ) (ha : 0 < a)
    (hm : m.Scales a) (controlRows armRows : List Row) (metric : Text) :
    SameConclusion a (contrast m rng seed controlRows armRows metric)
      (contrast m rng seed (controlRows.map (Row.rescale metric a))
        (armRows.map (Row.rescale metric a)) metric) := by
  have hcontrol := valuesOf_rescale metric a controlRows
  have harm := valuesOf_rescale metric a armRows
  by_cases hshort : (valuesOf controlRows metric).length < 2 ∨ (valuesOf armRows metric).length < 2
  · have hshort' : (valuesOf (controlRows.map (Row.rescale metric a)) metric).length < 2 ∨
        (valuesOf (armRows.map (Row.rescale metric a)) metric).length < 2 := by
      rwa [hcontrol, harm, length_rescale, length_rescale]
    unfold contrast
    rw [if_pos hshort, if_pos hshort', hcontrol, harm]
    exact ⟨⟨length_rescale a _, length_rescale a _⟩, ⟨mean_rescale a _, mean_rescale a _⟩, rfl,
      ⟨rfl, rfl⟩, rfl, rfl, ⟨rfl, rfl⟩, rfl, rfl, rfl⟩
  have hlong' : ¬((valuesOf (controlRows.map (Row.rescale metric a)) metric).length < 2 ∨
      (valuesOf (armRows.map (Row.rescale metric a)) metric).length < 2) := by
    rwa [hcontrol, harm, length_rescale, length_rescale]
  have hmean : ∀ xs : List ℚ, ¬xs.length < 2 → ∃ x, mean xs = some x := by
    intro xs hxs
    refine ⟨_, if_neg ?_⟩
    rintro rfl
    exact hxs (by simp)
  obtain ⟨mc, hmc⟩ := hmean _ (not_or.mp hshort).1
  obtain ⟨ma, hma⟩ := hmean _ (not_or.mp hshort).2
  have hmc' : mean (valuesOf (controlRows.map (Row.rescale metric a)) metric) = some (a * mc) := by
    rw [hcontrol, mean_rescale, hmc]
    rfl
  have hma' : mean (valuesOf (armRows.map (Row.rescale metric a)) metric) = some (a * ma) := by
    rw [harm, mean_rescale, hma]
    rfl
  rw [contrast_measured m rng seed hshort hmc hma, contrast_measured m rng seed hlong' hmc' hma',
    hcontrol, harm, ← mul_sub]
  exact conclude_rescale ha (measured_rescale rng seed ha hm metric _ _ mc ma) rfl _

end Contrast

/-- The roots of the squares of rationals, and 0 where there is none. -/
def exactRoot (x : ℚ) : ℚ := if Rat.sqrt x * Rat.sqrt x = x then Rat.sqrt x else 0

theorem exactRoot_scales {a : ℚ} (ha : 0 < a) (x : ℚ) :
    exactRoot (a ^ 2 * x) = a * exactRoot x := by
  have hsquare : Rat.sqrt x * Rat.sqrt x = x →
      Rat.sqrt (a ^ 2 * x) = a * Rat.sqrt x := by
    intro hx
    have hroot : Rat.sqrt x = |Rat.sqrt x| := by
      conv_lhs => rw [← hx, Rat.sqrt_eq]
    have hprod : a ^ 2 * x = a * Rat.sqrt x * (a * Rat.sqrt x) := by
      conv_lhs => rw [← hx]
      ring
    rw [hprod, Rat.sqrt_eq, abs_mul, abs_of_pos ha, ← hroot]
  have hback : Rat.sqrt (a ^ 2 * x) * Rat.sqrt (a ^ 2 * x) = a ^ 2 * x →
      Rat.sqrt x * Rat.sqrt x = x := by
    intro hx
    refine (Rat.exists_mul_self x).mp ⟨Rat.sqrt (a ^ 2 * x) / a, ?_⟩
    rw [div_mul_div_comm, hx, ← pow_two, mul_div_cancel_left₀ _ (pow_ne_zero 2 ha.ne')]
  unfold exactRoot
  by_cases hx : Rat.sqrt x * Rat.sqrt x = x
  · have hroot := hsquare hx
    rw [if_pos hx, if_pos, hroot]
    rw [hroot]
    calc a * Rat.sqrt x * (a * Rat.sqrt x) = a ^ 2 * (Rat.sqrt x * Rat.sqrt x) := by ring
      _ = a ^ 2 * x := by rw [hx]
  · rw [if_neg hx, if_neg fun h => hx (hback h), mul_zero]

def rootMath : Math ℚ :=
  { flatMath with sqrt := exactRoot, pow := fun x _ => exactRoot x ^ 3 }

theorem rootMath_scales {a : ℚ} (ha : 0 < a) : rootMath.Scales a where
  sqrt := exactRoot_scales ha
  pow x := by
    show exactRoot (a ^ 2 * x) ^ 3 = a ^ 3 * exactRoot x ^ 3
    rw [exactRoot_scales ha, mul_pow]

def joules (arm : Text) (e : ℚ) : Row :=
  { tenJoules arm with col := fun column => if column = headlineMetric then some e else none }

def controlJoules : List ℚ := [1105, 895, 1035, 965, 1000, 1000]

def flatJoules : List ℚ := [1288, 1112, 1244, 1156, 1222, 1178, 1222, 1178, 1200, 1200, 1200, 1200]

/-- Six runs against twelve, in millijoules. Their spread is 70 J and 44 J, and 53.5 J of both. -/
theorem contrast_rescale_milli :
    sd rootMath controlJoules = some 70 ∧ sd rootMath flatJoules = some 44 ∧
      pooledSd rootMath controlJoules flatJoules = some (107 / 2) ∧
      SameConclusion 1000
        (contrast rootMath quarters 0 (controlJoules.map (joules "control".toList))
          (flatJoules.map (joules "scx-flat".toList)) headlineMetric)
        (contrast rootMath quarters 0
          ((controlJoules.map (joules "control".toList)).map (Row.rescale headlineMetric 1000))
          ((flatJoules.map (joules "scx-flat".toList)).map (Row.rescale headlineMetric 1000))
          headlineMetric) := by
  refine ⟨?_, ?_, ?_, contrast_rescale rootMath quarters 0 1000 (by norm_num)
    (rootMath_scales (by norm_num)) _ _ _⟩ <;> decide +kernel

end Analyze

end FakeBigLittle
