import FakeBigLittle.Analyze.Percentile
import Mathlib.Algebra.Order.BigOperators.Group.List
import Mathlib.Data.Set.Finite.Lemmas

/-!
# The bootstrap interval

Whatever the quantile and the distribution function are, the ends are in order, inside of the
replicates, and under the name of the levels that they are taken at.
-/

namespace FakeBigLittle

namespace Analyze

open Dict

variable {K : Type} [Field K] [LinearOrder K] [FloorRing K]

/-! ## Any normal distribution -/

/-- `intervalOf`, for any `norm_ppf` and `norm_cdf`. -/
def intervalWith (ppf : K → Option K) (cdf : K → K) (m : Math K) (groups : List (List K))
    (stat : List (List K) → Option K) (nBoot : Nat) (alpha theta : K) (reps : List K) :
    Interval K :=
  let prop := shareBelow theta reps
  let accel :=
    if 0 < prop ∧ prop < 1 then (jackknife groups stat).bind (acceleration m) else none
  match accel.bind (bcaLevels ppf cdf alpha prop) with
  | some levels =>
    { point := some theta, lo := percentileOfSorted reps levels.1,
      hi := percentileOfSorted reps levels.2, method := some .bca, nBoot := nBoot }
  | none =>
    { point := some theta, lo := percentileOfSorted reps (alpha / (2 : Nat)),
      hi := percentileOfSorted reps (1 - alpha / (2 : Nat)), method := some .percentile,
      nBoot := nBoot }

/-- `bootstrapCi`, for any `norm_ppf` and `norm_cdf`. -/
def bootstrapWith (ppf : K → Option K) (cdf : K → K) (m : Math K) (rng : Random K)
    (groups : List (List K)) (stat : List (List K) → Option K) (nBoot : Nat) (alpha : K)
    (seed : Int) : Interval K :=
  if groups.any (fun g => g.length < 2) ∨ groups = [] then { nBoot := nBoot }
  else
    match stat groups with
    | none => { nBoot := nBoot }
    | some theta =>
      let reps := replicates rng groups stat nBoot (rng.seed seed)
      if reps.length < 100 then { point := some theta, nBoot := nBoot }
      else intervalWith ppf cdf m groups stat nBoot alpha theta (sortBy id reps)

theorem bootstrapCi_eq (m : Math K) (rng : Random K) (groups : List (List K))
    (stat : List (List K) → Option K) (nBoot : Nat) (alpha : K) (seed : Int) :
    bootstrapCi m rng groups stat nBoot alpha seed =
      bootstrapWith (normPpf m) (normCdf m) m rng groups stat nBoot alpha seed := rfl

/-! ## The levels -/

section Levels

variable {ppf : K → Option K} {z cdf : K → K} {alpha prop accel a1 a2 : K}

/-- `z0` and `za` adjusted for the bias and the acceleration. -/
def adjusted (cdf : K → K) (accel z0 za : K) : K := cdf (z0 + (z0 + za) / (1 - accel * (z0 + za)))

/-- The levels are defined, and these two; `z` are the values of `norm_ppf`. -/
def Levels (z cdf : K → K) (alpha prop : K) (accel : Option K) (a1 a2 : K) : Prop :=
  ∃ a, accel = some a ∧ 0 < prop ∧ prop < 1 ∧
    1 - a * (z prop + z (alpha / (2 : Nat))) ≠ 0 ∧
    1 - a * (z prop + z (1 - alpha / (2 : Nat))) ≠ 0 ∧
    a1 = adjusted cdf a (z prop) (z (alpha / (2 : Nat))) ∧
    a2 = adjusted cdf a (z prop) (z (1 - alpha / (2 : Nat)))

/-- Levels that an interval can be taken at. -/
def InOrder (a1 a2 : K) : Prop := 0 < a1 ∧ a1 < a2 ∧ a2 < 1

/-- The method is named after the levels of the ends, and BCa is used where it is defined. -/
structure Labelled (levels : K → K → Prop) (alpha : K) (reps : List K) (r : Interval K) : Prop where
  bca : ∀ a1 a2, levels a1 a2 → InOrder a1 a2 → r.method = some .bca ∧
    r.lo = percentileOfSorted reps a1 ∧ r.hi = percentileOfSorted reps a2
  percentile : (¬∃ a1 a2, levels a1 a2 ∧ InOrder a1 a2) → r.method = some .percentile ∧
    r.lo = percentileOfSorted reps (alpha / (2 : Nat)) ∧
    r.hi = percentileOfSorted reps (1 - alpha / (2 : Nat))

omit [FloorRing K] in
theorem levels_unique {accel : Option K} {b1 b2 : K} (h : Levels z cdf alpha prop accel a1 a2)
    (h' : Levels z cdf alpha prop accel b1 b2) : a1 = b1 ∧ a2 = b2 := by
  obtain ⟨a, rfl, -, -, -, -, rfl, rfl⟩ := h
  obtain ⟨b, hb, -, -, -, -, rfl, rfl⟩ := h'
  obtain rfl := Option.some.inj hb
  exact ⟨rfl, rfl⟩

variable [IsStrictOrderedRing K]

omit [FloorRing K] in
theorem halves_mem (h0 : 0 < alpha) (h1 : alpha < 1) :
    0 < alpha / (2 : Nat) ∧ alpha / (2 : Nat) < 1 - alpha / (2 : Nat) ∧
      1 - alpha / (2 : Nat) < 1 := by
  rw [Nat.cast_ofNat]
  refine ⟨by linarith, by linarith, by linarith⟩

omit [FloorRing K] in
theorem bcaLevels_eq_some_iff (hppf : ∀ p, 0 < p → p < 1 → ppf p = some (z p)) (h0 : 0 < alpha)
    (h1 : alpha < 1) (hprop : 0 < prop ∧ prop < 1) (levels : K × K) :
    bcaLevels ppf cdf alpha prop accel = some levels ↔
      Levels z cdf alpha prop (some accel) levels.1 levels.2 ∧ InOrder levels.1 levels.2 := by
  obtain ⟨hlow, hless, hhigh⟩ := halves_mem h0 h1
  unfold bcaLevels Levels InOrder adjusted
  rw [hppf prop hprop.1 hprop.2, hppf _ hlow (hless.trans hhigh), hppf _ (hlow.trans hless) hhigh]
  simp only [Option.bind_eq_bind, Option.bind_some, Option.some.injEq]
  constructor
  · intro h
    split_ifs at h with hcond
    obtain ⟨hdenom, hdenom', hpos, hlt, hlt'⟩ := hcond
    obtain rfl := Option.some.inj h
    exact ⟨⟨accel, rfl, hprop.1, hprop.2, hdenom, hdenom', rfl, rfl⟩, hpos, hlt, hlt'⟩
  · rintro ⟨⟨a, rfl, -, -, hdenom, hdenom', hfst, hsnd⟩, hpos, hlt, hlt'⟩
    rw [hfst] at hpos hlt
    rw [hsnd] at hlt hlt'
    rw [if_pos ⟨hdenom, hdenom', hpos, hlt, hlt'⟩, ← hfst, ← hsnd]

end Levels

/-! ## Samples with replacement -/

section Samples

variable (rng : Random K)

/-- As many values as in the group, and only values of the group. -/
def IsResample (g r : List K) : Prop := r.length = g.length ∧ ∀ x ∈ r, x ∈ g

variable [IsStrictOrderedRing K]

theorem choices_spec {g : List K} (hg : g ≠ []) (k : Nat) (s : rng.State) :
    (choices rng g k s).1.length = k ∧ ∀ x ∈ (choices rng g k s).1, x ∈ g := by
  induction k generalizing s with
  | zero => simp [choices]
  | succ k ih =>
    obtain ⟨hnonneg, hlt⟩ := rng.random_mem s
    obtain ⟨hlength, hmem⟩ := ih (rng.random s).2
    have hpos : (0 : K) < g.length := by exact_mod_cast List.length_pos_of_ne_nil hg
    have hindex : ⌊(rng.random s).1 * g.length⌋.toNat < g.length := by
      apply Quantile.cell_lt (mul_nonneg hnonneg hpos.le)
      exact mul_lt_of_lt_one_left hpos hlt
    constructor
    · simp [choices, hlength]
    · intro x hx
      simp only [choices, List.mem_cons] at hx
      rcases hx with rfl | hx
      · rw [List.getD_eq_getElem _ _ hindex]
        exact List.getElem_mem hindex
      · exact hmem x hx

theorem resample_spec {groups : List (List K)} (hne : ∀ g ∈ groups, g ≠ []) (s : rng.State) :
    List.Forall₂ IsResample groups (resample rng groups s).1 := by
  induction groups generalizing s with
  | nil => exact List.Forall₂.nil
  | cons g groups ih =>
    rw [List.forall_mem_cons] at hne
    exact List.Forall₂.cons (choices_spec rng hne.1 g.length s) (ih hne.2 _)

/-- A replicate is the statistic of a resample. -/
theorem mem_replicates {groups : List (List K)} (hne : ∀ g ∈ groups, g ≠ [])
    {stat : List (List K) → Option K} {n : Nat} {s : rng.State} {r : K}
    (h : r ∈ replicates rng groups stat n s) :
    ∃ rs, List.Forall₂ IsResample groups rs ∧ stat rs = some r := by
  induction n generalizing s with
  | zero => simp [replicates] at h
  | succ n ih =>
    simp only [replicates, List.mem_append, Option.mem_toList] at h
    rcases h with h | h
    · exact ⟨_, resample_spec rng hne s, h⟩
    · exact ih h

/-- Nothing is lost where the statistic does not raise. -/
theorem replicates_length {groups : List (List K)} (hne : ∀ g ∈ groups, g ≠ [])
    {stat : List (List K) → Option K}
    (hstat : ∀ rs, List.Forall₂ IsResample groups rs → stat rs ≠ none) (n : Nat)
    (s : rng.State) : (replicates rng groups stat n s).length = n := by
  induction n generalizing s with
  | zero => rfl
  | succ n ih =>
    obtain ⟨v, hv⟩ := Option.ne_none_iff_exists'.mp (hstat _ (resample_spec rng hne s))
    rw [replicates, List.length_append, hv, ih]
    simp [Nat.add_comm]

end Samples

/-! ## Means -/

section Means

variable [IsStrictOrderedRing K] {xs : List K} {v a b : K}

omit [FloorRing K] in
theorem mean_mem (h : mean xs = some v) (hlow : ∀ x ∈ xs, a ≤ x) (hhigh : ∀ x ∈ xs, x ≤ b) :
    a ≤ v ∧ v ≤ b := by
  unfold mean at h
  split_ifs at h with hne
  obtain rfl := Option.some.inj h
  have hpos : (0 : K) < xs.length := by exact_mod_cast List.length_pos_of_ne_nil hne
  have hsum := List.card_nsmul_le_sum xs a hlow
  have hsum' := List.sum_le_card_nsmul xs b hhigh
  rw [nsmul_eq_mul] at hsum hsum'
  constructor
  · rw [le_div_iff₀ hpos, mul_comm]
    exact hsum
  · rw [div_le_iff₀ hpos, mul_comm]
    exact hsum'

/-- The smallest and the largest of the values. -/
structure Spans (xs : List K) (a b : K) : Prop where
  least : IsLeast {x | x ∈ xs} a
  greatest : IsGreatest {x | x ∈ xs} b

omit [Field K] [FloorRing K] [IsStrictOrderedRing K] in
theorem Spans.mem (h : Spans xs a b) {x : K} (hx : x ∈ xs) : a ≤ x ∧ x ≤ b :=
  ⟨h.least.2 hx, h.greatest.2 hx⟩

omit [Field K] [FloorRing K] [IsStrictOrderedRing K] in
theorem exists_spans (h : xs ≠ []) : ∃ a b, Spans xs a b := by
  have hfinite : {x | x ∈ xs}.Finite := List.finite_toSet xs
  have hnonempty : {x | x ∈ xs}.Nonempty := List.exists_mem_of_ne_nil xs h
  obtain ⟨a, ha, hleast⟩ := Set.exists_min_image {x | x ∈ xs} id hfinite hnonempty
  obtain ⟨b, hb, hgreatest⟩ := Set.exists_max_image {x | x ∈ xs} id hfinite hnonempty
  exact ⟨a, b, ⟨⟨ha, fun x hx => hleast x hx⟩, ⟨hb, fun x hx => hgreatest x hx⟩⟩⟩

omit [FloorRing K] in
theorem resample_mean {r : List K} (hr : IsResample xs r) (h : mean r = some v)
    (hspans : Spans xs a b) : a ≤ v ∧ v ≤ b :=
  mean_mem h (fun x hx => (hspans.mem (hr.2 x hx)).1) fun x hx => (hspans.mem (hr.2 x hx)).2

omit [FloorRing K] in
theorem statMean_between {rs : List (List K)} (hrs : List.Forall₂ IsResample [xs] rs)
    (h : statMean rs = some v) (hspans : Spans xs a b) : a ≤ v ∧ v ≤ b := by
  obtain ⟨r, rest, hr, -, rfl⟩ := List.forall₂_cons_left_iff.mp hrs
  exact resample_mean hr (by simpa [statMean] using h) hspans

omit [FloorRing K] in
theorem statDiff_between {control arm : List K} {c d : K} {rs : List (List K)}
    (hrs : List.Forall₂ IsResample [control, arm] rs) (h : statDiff rs = some v)
    (hcontrol : Spans control a b) (harm : Spans arm c d) : c - b ≤ v ∧ v ≤ d - a := by
  obtain ⟨r, rest, hr, hrest, rfl⟩ := List.forall₂_cons_left_iff.mp hrs
  obtain ⟨r', rest', hr', -, rfl⟩ := List.forall₂_cons_left_iff.mp hrest
  simp only [statDiff, List.getElem?_cons_zero, List.getElem?_cons_succ, Option.bind_eq_bind,
    Option.bind_some, Option.bind_eq_some_iff] at h
  obtain ⟨x, hx, y, hy, heq⟩ := h
  obtain rfl := Option.some.inj heq
  have hx := resample_mean hr hx hcontrol
  have hy := resample_mean hr' hy harm
  constructor
  · linarith
  · linarith

end Means

/-! ## The interval -/

section WellFormed

variable [IsStrictOrderedRing K] {reps : List K} {a1 a2 : K}

theorem quantiles_in_order (hne : reps ≠ []) (hsorted : reps.Pairwise (· ≤ ·)) (h0 : 0 ≤ a1)
    (hle : a1 ≤ a2) (h1 : a2 ≤ 1) :
    ∃ lo hi, percentileOfSorted reps a1 = some lo ∧ percentileOfSorted reps a2 = some hi ∧
      lo ≤ hi ∧ ∀ a b, Spans reps a b → a ≤ lo ∧ hi ≤ b := by
  have hcell1 := position_cell hne h0 (hle.trans h1)
  have hcell2 := position_cell hne (h0.trans hle) h1
  have hpos1 := position_nonneg reps h0
  have hpos2 := position_nonneg reps (h0.trans hle)
  have hlength := List.length_pos_of_ne_nil hne
  refine ⟨_, _, percentileOfSorted_eq_value hne, percentileOfSorted_eq_value hne, ?_, ?_⟩
  · apply Quantile.value_mono hsorted hpos1 _ hcell2
    gcongr
  · intro a b hspans
    obtain ⟨hfirst, -⟩ := Quantile.value_bounds hsorted hpos1 hcell1
    obtain ⟨-, hlast⟩ := Quantile.value_bounds hsorted hpos2 hcell2
    rw [List.getD_eq_getElem _ _ hlength] at hfirst
    rw [List.getD_eq_getElem _ _ (by omega)] at hlast
    constructor
    · exact (hspans.mem (List.getElem_mem _)).1.trans hfirst
    · exact hlast.trans (hspans.mem (List.getElem_mem _)).2

variable {ppf : K → Option K} {z cdf : K → K} {alpha : K}

theorem intervalWith_labelled (hppf : ∀ p, 0 < p → p < 1 → ppf p = some (z p)) (cdf : K → K)
    (h0 : 0 < alpha) (h1 : alpha < 1) (m : Math K) (groups : List (List K))
    (stat : List (List K) → Option K) (nBoot : Nat) (theta : K) (reps : List K) :
    Labelled
      (Levels z cdf alpha (shareBelow theta reps) ((jackknife groups stat).bind (acceleration m)))
      alpha reps (intervalWith ppf cdf m groups stat nBoot alpha theta reps) := by
  have hlevels : ∀ levels : K × K,
      (if 0 < shareBelow theta reps ∧ shareBelow theta reps < 1 then
        (jackknife groups stat).bind (acceleration m) else none).bind
          (bcaLevels ppf cdf alpha (shareBelow theta reps)) = some levels ↔
        Levels z cdf alpha (shareBelow theta reps) ((jackknife groups stat).bind (acceleration m))
          levels.1 levels.2 ∧ InOrder levels.1 levels.2 := by
    intro levels
    by_cases hprop : 0 < shareBelow theta reps ∧ shareBelow theta reps < 1
    · rw [if_pos hprop]
      cases (jackknife groups stat).bind (acceleration m) with
      | none => simp [Levels]
      | some accel => exact bcaLevels_eq_some_iff hppf h0 h1 hprop levels
    · rw [if_neg hprop]
      refine iff_of_false (by simp) ?_
      rintro ⟨⟨a, -, hpos, hlt, -⟩, -⟩
      exact hprop ⟨hpos, hlt⟩
  constructor
  · intro a1 a2 hdefined horder
    have hsome := (hlevels (a1, a2)).mpr ⟨hdefined, horder⟩
    unfold intervalWith
    simp only [hsome, and_self]
  · intro hnot
    have hnone : (if 0 < shareBelow theta reps ∧ shareBelow theta reps < 1 then
        (jackknife groups stat).bind (acceleration m) else none).bind
          (bcaLevels ppf cdf alpha (shareBelow theta reps)) = none := by
      rw [Option.eq_none_iff_forall_ne_some]
      intro levels heq
      exact hnot ⟨levels.1, levels.2, (hlevels levels).mp heq⟩
    unfold intervalWith
    simp only [hnone, and_self]

/-- Labelled ends are in order. -/
theorem Labelled.ends {levels : K → K → Prop} {r : Interval K} (h : Labelled levels alpha reps r)
    (h0 : 0 < alpha) (h1 : alpha < 1) (hne : reps ≠ []) (hsorted : reps.Pairwise (· ≤ ·)) :
    ∃ lo hi, r.lo = some lo ∧ r.hi = some hi ∧ lo ≤ hi ∧
      ∀ a b, Spans reps a b → a ≤ lo ∧ hi ≤ b := by
  by_cases hlevels : ∃ a1 a2, levels a1 a2 ∧ InOrder a1 a2
  · obtain ⟨a1, a2, hdefined, horder⟩ := hlevels
    obtain ⟨-, hlo, hhi⟩ := h.bca a1 a2 hdefined horder
    rw [hlo, hhi]
    exact quantiles_in_order hne hsorted horder.1.le horder.2.1.le horder.2.2.le
  · obtain ⟨hpos, hless, hlt⟩ := halves_mem h0 h1
    obtain ⟨-, hlo, hhi⟩ := h.percentile hlevels
    rw [hlo, hhi]
    exact quantiles_in_order hne hsorted hpos.le hless.le hlt.le

variable {m : Math K} {groups : List (List K)} {stat : List (List K) → Option K}

omit [IsStrictOrderedRing K] in
theorem bootstrapWith_eq {rng : Random K} (hne : groups ≠ [])
    (hsize : ∀ g ∈ groups, 2 ≤ g.length) {theta : K} (hstat : stat groups = some theta)
    {nBoot : Nat} {seed : Int}
    (hreps : 100 ≤ (replicates rng groups stat nBoot (rng.seed seed)).length) :
    bootstrapWith ppf cdf m rng groups stat nBoot alpha seed =
      intervalWith ppf cdf m groups stat nBoot alpha theta
        (sortBy id (replicates rng groups stat nBoot (rng.seed seed))) := by
  have hlarge : ¬(groups.any (fun g => g.length < 2) ∨ groups = []) := by
    rw [not_or, List.any_eq_true]
    refine ⟨?_, hne⟩
    rintro ⟨g, hg, hsmall⟩
    have hlength := hsize g hg
    have hsmall := of_decide_eq_true hsmall
    omega
  unfold bootstrapWith
  simp only [if_neg hlarge, hstat, if_neg (not_lt.mpr hreps)]

/-- **An interval has its ends in order, inside of the replicates and of the means that the
samples can have, and under its own name.** -/
theorem bootstrap_wellFormed (hppf : ∀ p, 0 < p → p < 1 → ppf p = some (z p)) (cdf : K → K)
    (h0 : 0 < alpha) (h1 : alpha < 1) (m : Math K) (rng : Random K) (hne : groups ≠ [])
    (hsize : ∀ g ∈ groups, 2 ≤ g.length) {theta : K} (hstat : stat groups = some theta)
    {nBoot : Nat} {seed : Int}
    (hreps : 100 ≤ (replicates rng groups stat nBoot (rng.seed seed)).length) :
    let reps := sortBy id (replicates rng groups stat nBoot (rng.seed seed))
    let r := bootstrapWith ppf cdf m rng groups stat nBoot alpha seed
    Labelled
        (Levels z cdf alpha (shareBelow theta reps) ((jackknife groups stat).bind (acceleration m)))
        alpha reps r ∧
      ∃ lo hi, r.lo = some lo ∧ r.hi = some hi ∧ lo ≤ hi ∧
        (∀ a b, Spans reps a b → a ≤ lo ∧ hi ≤ b) ∧
        (∀ xs a b, groups = [xs] → stat = statMean → Spans xs a b → a ≤ lo ∧ hi ≤ b) ∧
        ∀ control arm a b c d, groups = [control, arm] → stat = statDiff →
          Spans control a b → Spans arm c d → c - b ≤ lo ∧ hi ≤ d - a := by
  intro reps r
  have hperm : reps.Perm (replicates rng groups stat nBoot (rng.seed seed)) := sortBy_perm id _
  have hreps_ne : reps ≠ [] := by
    apply List.ne_nil_of_length_pos
    rw [hperm.length_eq]
    omega
  have hgroups : ∀ g ∈ groups, g ≠ [] := by
    intro g hg
    apply List.ne_nil_of_length_pos
    have hlength := hsize g hg
    omega
  have hlabelled := intervalWith_labelled hppf cdf h0 h1 m groups stat nBoot theta reps
  rw [← bootstrapWith_eq hne hsize hstat hreps] at hlabelled
  obtain ⟨lo, hi, hlo, hhi, hle, hwithin⟩ := hlabelled.ends h0 h1 hreps_ne (sortBy_sorted id _)
  -- what holds of every replicate holds of the ends
  obtain ⟨least, greatest, hspans⟩ := exists_spans hreps_ne
  have hends := hwithin least greatest hspans
  have hbounds : ∀ a b, (∀ rs v, List.Forall₂ IsResample groups rs → stat rs = some v →
      a ≤ v ∧ v ≤ b) → a ≤ lo ∧ hi ≤ b := by
    intro a b hall
    obtain ⟨rs, hrs, hv⟩ := mem_replicates rng hgroups (hperm.mem_iff.mp hspans.least.1)
    obtain ⟨rs', hrs', hv'⟩ := mem_replicates rng hgroups (hperm.mem_iff.mp hspans.greatest.1)
    exact ⟨(hall rs least hrs hv).1.trans hends.1, hends.2.trans (hall rs' greatest hrs' hv').2⟩
  refine ⟨hlabelled, lo, hi, hlo, hhi, hle, hwithin, ?_, ?_⟩
  · rintro xs a b rfl rfl hxs
    exact hbounds a b fun rs v hrs hv => statMean_between hrs hv hxs
  · rintro control arm a b c d rfl rfl hcontrol harm
    exact hbounds (c - b) (d - a) fun rs v hrs hv => statDiff_between hrs hv hcontrol harm

end WellFormed

-- Draws that go around in quarters.
def quarters : Random ℚ where
  State := Nat
  seed := fun _ => 0
  random := fun s => ((s % 4 : Nat) / 4, s + 1)
  randbelow := fun n s => (s % n, s + 1)
  random_mem := by
    intro s
    have hlt : ((s % 4 : Nat) : ℚ) < 4 := by exact_mod_cast Nat.mod_lt s (by decide)
    constructor
    · positivity
    · show ((s % 4 : Nat) : ℚ) / 4 < 1
      linarith
  randbelow_lt := fun n s hn => Nat.mod_lt s hn

theorem statMean_resample {xs : List ℚ} (hne : xs ≠ []) {rs : List (List ℚ)}
    (hrs : List.Forall₂ IsResample [xs] rs) : statMean rs ≠ none := by
  obtain ⟨r, rest, hr, -, rfl⟩ := List.forall₂_cons_left_iff.mp hrs
  have hr_ne : r ≠ [] := by
    apply List.ne_nil_of_length_pos
    rw [hr.1]
    exact List.length_pos_of_ne_nil hne
  simp [statMean, mean, hr_ne]

-- Only the roots of 0 and 1 are those of the library.
def flatMath : Math ℚ where
  sqrt := id
  erf := id
  exp := fun _ => 1
  log := fun _ => 0
  log1p := id
  lgamma := fun _ => 0
  pow := fun x _ => x
  pi := 355 / 113

/-- The mean of three powers, from 100 resamples. -/
theorem bootstrap_wellFormed_powers :
    ∃ lo hi, lo ≤ hi ∧ 2 ≤ lo ∧ hi ≤ 5 ∧
      (bootstrapWith (fun p => some (p - 0.5)) id flatMath quarters [[2, 5, 3]] statMean 100 0.05
        1).lo = some lo := by
  have hgroups : ∀ g ∈ [([2, 5, 3] : List ℚ)], g ≠ [] := by simp
  have hstat : statMean [([2, 5, 3] : List ℚ)] = some (10 / 3) := by
    rw [show statMean [([2, 5, 3] : List ℚ)] = some (([2, 5, 3] : List ℚ).sum / 3) from rfl]
    norm_num
  have hreps : (replicates quarters [[2, 5, 3]] statMean 100 (quarters.seed 1)).length = 100 :=
    replicates_length quarters hgroups (fun rs hrs => statMean_resample (by simp) hrs) 100 _
  obtain ⟨-, lo, hi, hlo, -, hle, -, hmean, -⟩ :=
    bootstrap_wellFormed (z := fun p => p - 0.5) (fun p _ _ => rfl) id
      (by norm_num : (0 : ℚ) < 0.05) (by norm_num) flatMath quarters (by simp) (by simp) hstat
      hreps.ge
  have hspans : Spans ([2, 5, 3] : List ℚ) 2 5 := by
    constructor
    · constructor
      · simp
      · intro x hx
        simp only [Set.mem_ofPred_eq, List.mem_cons, List.not_mem_nil, or_false] at hx
        rcases hx with rfl | rfl | rfl <;> norm_num
    · constructor
      · simp
      · intro x hx
        simp only [Set.mem_ofPred_eq, List.mem_cons, List.not_mem_nil, or_false] at hx
        rcases hx with rfl | rfl | rfl <;> norm_num
  obtain ⟨hlow, hhigh⟩ := hmean [2, 5, 3] 2 5 rfl rfl hspans
  exact ⟨lo, hi, hle, hlow, hhigh, hlo⟩

end Analyze

end FakeBigLittle
