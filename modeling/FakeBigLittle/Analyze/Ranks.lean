import FakeBigLittle.Analyze.Stats
import FakeBigLittle.Ranks
import Mathlib.Analysis.Real.Sqrt
import Mathlib.Data.List.GetD
import Mathlib.Data.List.TakeWhile

/-!
# Spearman's rho

`rankdata` goes through the values in order, one tie at a time, and that is a rank by counting.
What is correlated only depends on the order of the values, and not on that of the pairs.
-/

namespace FakeBigLittle

namespace Analyze

open Dict Ranks

variable {K : Type} [Field K] [LinearOrder K]

/-! ## One tie -/

section Loop

variable {xs : List K} {key : Nat → K} {first : Nat} {rest order : List Nat}

omit [Field K] [LinearOrder K] in
theorem foldl_set_getElem? (ks : List Nat) (avg : K) (ranks : List K) (j : Nat) :
    (ks.foldl (fun ranks k => ranks.set k avg) ranks)[j]? =
      if j ∈ ks ∧ j < ranks.length then some avg else ranks[j]? := by
  induction ks generalizing ranks with
  | nil => simp
  | cons k ks ih =>
    rw [List.foldl_cons, ih, List.length_set, List.getElem?_set]
    by_cases hj : j < ranks.length
    · by_cases hk : k = j
      · simp [hk, hj]
      · have hne : ¬j = k := fun h => hk h.symm
        simp [hk, hj, hne]
    · have hnone : ranks[j]? = none := List.getElem?_eq_none (by omega)
      have hout : ¬k = j ∨ ¬k < ranks.length := by omega
      simp only [hj, and_false, if_false, hnone]
      split_ifs <;> first | omega | rfl

omit [Field K] [LinearOrder K] in
theorem foldl_set_length (ks : List Nat) (avg : K) (ranks : List K) :
    (ks.foldl (fun ranks k => ranks.set k avg) ranks).length = ranks.length := by
  induction ks generalizing ranks with
  | nil => rfl
  | cons k ks ih => rw [List.foldl_cons, ih, List.length_set]

/-- How many of the indices have a smaller value, and half of those with an equal one. -/
def rankOf (key : Nat → K) (order : List Nat) (k : Nat) : K := rank (order.map key) (key k)

omit [Field K] in
/-- The indices of a tie, and the later ones. -/
theorem ties_cases {p : Nat → Bool} (hp : ∀ k ∈ rest, p k = true ↔ key k = key first)
    (hsorted : (first :: rest).Pairwise fun i j => key i ≤ key j) :
    ∃ ties later, rest = ties ++ later ∧ rest.takeWhile p = ties ∧
      (∀ k ∈ first :: ties, key k = key first) ∧ ∀ k ∈ later, key first < key k := by
  refine ⟨rest.takeWhile p, rest.dropWhile p, List.takeWhile_append_dropWhile.symm, rfl, ?_, ?_⟩
  · intro k hk
    rcases List.mem_cons.mp hk with rfl | hk
    · rfl
    · exact (hp k ((List.takeWhile_sublist p).subset hk)).mp (List.mem_takeWhile_imp hk)
  · obtain ⟨hfirst, hrest⟩ := List.pairwise_cons.mp hsorted
    have hlater := hrest.sublist (List.dropWhile_sublist p)
    intro k hk
    -- the first one that is not in the tie is larger, and the others are not smaller
    cases hdrop : rest.dropWhile p with
    | nil => simp [hdrop] at hk
    | cons next later =>
      have hmem : next ∈ rest := by
        apply (List.dropWhile_sublist p).subset
        rw [hdrop]
        exact List.mem_cons_self
      have hne : key next ≠ key first := by
        have hnot := List.head_dropWhile_not p (by simp [hdrop] : rest.dropWhile p ≠ [])
        simp only [hdrop, List.head_cons] at hnot
        intro heq
        rw [(hp next hmem).mpr heq] at hnot
        exact Bool.noConfusion hnot
      rw [hdrop] at hk hlater
      have hlt : key first < key next := lt_of_le_of_ne (hfirst next hmem) hne.symm
      rcases List.mem_cons.mp hk with rfl | hk
      · exact hlt
      · exact hlt.trans_le ((List.pairwise_cons.mp hlater).1 k hk)

theorem rankOf_tie {ties later : List Nat} (htie : ∀ k ∈ ties, key k = key first)
    (hlater : ∀ k ∈ later, key first < key k) {k : Nat} (hk : k ∈ ties) :
    rankOf key (ties ++ later) k = (ties.length + 1) / 2 := by
  have hbelow : ((ties ++ later).map key).countP (· < key k) = 0 := by
    rw [List.countP_eq_zero]
    intro v hv
    obtain ⟨j, hj, rfl⟩ := List.mem_map.mp hv
    rw [htie k hk]
    rcases List.mem_append.mp hj with hj | hj
    · simp [htie j hj]
    · simp [(hlater j hj).le]
  have hties : (ties.map key).countP (· = key k) = ties.length := by
    rw [← List.length_map key, List.countP_eq_length]
    intro v hv
    obtain ⟨j, hj, rfl⟩ := List.mem_map.mp hv
    simp [htie j hj, htie k hk]
  have hrest : (later.map key).countP (· = key k) = 0 := by
    rw [List.countP_eq_zero]
    intro v hv
    obtain ⟨j, hj, rfl⟩ := List.mem_map.mp hv
    simp [htie k hk, (hlater j hj).ne']
  unfold rankOf rank
  rw [hbelow, List.map_append, List.countP_append, hties, hrest]
  simp

theorem rankOf_later {ties later : List Nat} (htie : ∀ k ∈ ties, key k = key first)
    (hlater : ∀ k ∈ later, key first < key k) {k : Nat} (hk : k ∈ later) :
    rankOf key (ties ++ later) k = ties.length + rankOf key later k := by
  have hbelow : (ties.map key).countP (· < key k) = ties.length := by
    rw [← List.length_map key, List.countP_eq_length]
    intro v hv
    obtain ⟨j, hj, rfl⟩ := List.mem_map.mp hv
    simp [htie j hj, hlater k hk]
  have hequal : (ties.map key).countP (· = key k) = 0 := by
    rw [List.countP_eq_zero]
    intro v hv
    obtain ⟨j, hj, rfl⟩ := List.mem_map.mp hv
    simp [htie j hj, (hlater k hk).ne]
  unfold rankOf rank
  rw [List.map_append, List.countP_append, List.countP_append, hbelow, hequal, Nat.zero_add,
    Nat.cast_add, add_assoc]

/-! ## The loop -/

variable [IsStrictOrderedRing K]

/-- From position `i` on, each index that is left gets `i` more than its rank among them. -/
theorem assignRanks_getElem? (hlt : ∀ k ∈ order, k < xs.length) (hnodup : order.Nodup)
    (hsorted : order.Pairwise fun i j => xs.getD i 0 ≤ xs.getD j 0) (i : Nat) {ranks : List K}
    (hlength : ranks.length = xs.length) (k : Nat) :
    (assignRanks xs i order ranks)[k]? =
      if k ∈ order then some (i + rankOf (fun k => xs.getD k 0) order k) else ranks[k]? := by
  induction hn : order.length using Nat.strong_induction_on generalizing order i ranks with
  | _ n ih =>
    cases order with
    | nil => simp [assignRanks]
    | cons first rest =>
      have hsame : ∀ j ∈ rest, decide (xs[j]? = xs[first]?) = true ↔
          xs.getD j 0 = xs.getD first 0 := by
        intro j hj
        have hj := hlt j (List.mem_cons_of_mem first hj)
        have hfirst := hlt first List.mem_cons_self
        rw [List.getD_eq_getElem _ _ hj, List.getD_eq_getElem _ _ hfirst,
          List.getElem?_eq_getElem hj, List.getElem?_eq_getElem hfirst]
        simp
      obtain ⟨ties, later, rfl, htake, htie, hlater⟩ := ties_cases hsame hsorted
      have hsub : later.Sublist (first :: (ties ++ later)) :=
        (List.sublist_append_right ties later).cons first
      have hshort : later.length < n := by
        rw [← hn, List.length_cons, List.length_append]
        omega
      rw [assignRanks, htake, List.drop_left,
        ih later.length hshort (fun k hk => hlt k (hsub.subset hk)) (hnodup.sublist hsub)
          (hsorted.sublist hsub) _ (by rw [foldl_set_length, hlength]) rfl, foldl_set_getElem?,
        ← List.cons_append]
      by_cases hk : k ∈ later
      · have hmem : k ∈ first :: ties ++ later := List.mem_append_right _ hk
        rw [if_pos hk, if_pos hmem, rankOf_later htie hlater hk, List.length_cons]
        push_cast
        ring_nf
      · by_cases htied : k ∈ first :: ties
        · have hmem : k ∈ first :: ties ++ later := List.mem_append_left _ htied
          have hk' : k < ranks.length := by
            rw [hlength]
            exact hlt k hmem
          rw [if_neg hk, if_pos ⟨htied, hk'⟩, if_pos hmem, rankOf_tie htie hlater htied,
            List.length_cons]
          push_cast
          ring_nf
        · have hmem : k ∉ first :: ties ++ later := by
            rw [List.mem_append, not_or]
            exact ⟨htied, hk⟩
          rw [if_neg hk, if_neg fun h => htied h.1, if_neg hmem]

/-- The ranks are those by counting. -/
theorem rankdata_eq (xs : List K) : rankdata xs = xs.map (rank xs) := by
  have hperm := sortBy_perm (fun i => xs.getD i 0) (List.range xs.length)
  have hmem : ∀ k, k ∈ sortBy (fun i => xs.getD i 0) (List.range xs.length) ↔ k < xs.length := by
    intro k
    rw [hperm.mem_iff, List.mem_range]
  have hvalues : (List.range xs.length).map (fun i => xs.getD i 0) = xs := by
    apply List.ext_getElem
    · simp
    · intro i hi hi'
      simp [hi']
  apply List.ext_getElem?
  intro k
  unfold rankdata
  rw [assignRanks_getElem? (fun k hk => (hmem k).mp hk) (hperm.nodup_iff.mpr List.nodup_range)
    (sortBy_sorted _ _) 0 List.length_replicate]
  by_cases hk : k < xs.length
  · have hrank : rankOf (fun k => xs.getD k 0)
        (sortBy (fun i => xs.getD i 0) (List.range xs.length)) k = rank xs (xs.getD k 0) := by
      unfold rankOf
      rw [rank_perm (hperm.map _), hvalues]
    rw [if_pos ((hmem k).mpr hk), hrank, List.getElem?_map, List.getElem?_eq_getElem hk,
      List.getD_eq_getElem _ _ hk]
    simp
  · rw [if_neg fun h => hk ((hmem k).mp h), List.getElem?_eq_none (by simpa using hk),
      List.getElem?_eq_none (by simpa using hk)]

end Loop

/-! ## The correlation -/

section Correlation

variable {ι : Type} (m : Math K) {l : List ι} {u u' v v' : ι → K}

def deviation (l : List ι) (u : ι → K) (i : ι) : K := u i - (l.map u).sum / l.length

/-- `pearson`, of two numbers for each member of a list. -/
def correlation (l : List ι) (u v : ι → K) : Option K :=
  let sxx := (l.map fun i => deviation l u i ^ 2).sum
  let syy := (l.map fun i => deviation l v i ^ 2).sum
  if l.length < 3 then none
  else if sxx ≤ 0 ∨ syy ≤ 0 then none
  else some ((l.map fun i => deviation l u i * deviation l v i).sum / m.sqrt (sxx * syy))

theorem pearson_map (l : List ι) (u v : ι → K) :
    pearson m (l.map u) (l.map v) = correlation m l u v := by
  unfold pearson correlation deviation
  simp only [List.length_map, List.map_map, List.zipWith_map, List.zipWith_self, Function.comp_def]

theorem correlation_map {κ : Type} (φ : κ → ι) (l : List κ) (u v : ι → K) :
    correlation m (l.map φ) u v = correlation m l (u ∘ φ) (v ∘ φ) := by
  unfold correlation deviation
  simp only [List.length_map, List.map_map, Function.comp_def]

theorem correlation_perm {l l' : List ι} (h : l.Perm l') (u v : ι → K) :
    correlation m l u v = correlation m l' u v := by
  have hdev : ∀ w : ι → K, deviation l w = deviation l' w := by
    intro w
    funext i
    unfold deviation
    rw [(h.map w).sum_eq, h.length_eq]
  unfold correlation
  simp only [hdev, h.length_eq, (h.map _).sum_eq]

theorem correlation_comm (l : List ι) (u v : ι → K) :
    correlation m l u v = correlation m l v u := by
  unfold correlation
  simp only [or_comm, mul_comm]

theorem correlation_congr (hu : ∀ i ∈ l, u i = u' i) (hv : ∀ i ∈ l, v i = v' i) :
    correlation m l u v = correlation m l u' v' := by
  rw [← pearson_map, ← pearson_map, List.map_congr_left hu, List.map_congr_left hv]

variable [IsStrictOrderedRing K]

theorem deviation_sub (c : K) (hne : l ≠ []) (u : ι → K) (i : ι) :
    deviation l (fun i => c - u i) i = -deviation l u i := by
  have hlength : (l.length : K) ≠ 0 := by
    exact_mod_cast (List.length_pos_of_ne_nil hne).ne'
  have hsum : (l.map fun i => c - u i).sum = l.length * c - (l.map u).sum := by
    simp only [sub_eq_add_neg, neg_eq_neg_one_mul (u _), List.sum_map_add, List.sum_map_mul_left,
      List.map_const', List.sum_replicate, nsmul_eq_mul]
    ring
  unfold deviation
  rw [hsum, sub_div, mul_div_cancel_left₀ c hlength]
  ring

theorem correlation_sub (c : K) (l : List ι) (u v : ι → K) :
    correlation m l (fun i => c - u i) v = (correlation m l u v).map (- ·) := by
  unfold correlation
  by_cases hshort : l.length < 3
  · simp only [if_pos hshort, Option.map_none]
  · have hne : l ≠ [] := by
      rintro rfl
      exact hshort (by simp)
    have hprod : (l.map fun i => -deviation l u i * deviation l v i).sum =
        -(l.map fun i => deviation l u i * deviation l v i).sum := by
      have hprod := List.sum_map_mul_left l (fun i => deviation l u i * deviation l v i) (-1)
      simpa only [neg_mul, one_mul] using hprod
    simp only [if_neg hshort, deviation_sub c hne, neg_sq, hprod, neg_div]
    split_ifs
    · rfl
    · rfl

theorem correlation_sq_le (hsqrt : ∀ t, 0 ≤ t → m.sqrt t ^ 2 = t) {rho : K}
    (h : correlation m l u v = some rho) : rho ^ 2 ≤ 1 := by
  unfold correlation at h
  simp only at h
  split_ifs at h with hshort hflat
  obtain ⟨hu, hv⟩ := not_or.mp hflat
  have hpos := mul_pos (not_le.mp hu) (not_le.mp hv)
  obtain rfl := Option.some.inj h
  rw [div_pow, hsqrt _ hpos.le, div_le_one hpos]
  exact sum_mul_sq_le l (deviation l u) (deviation l v)

end Correlation

/-! ## Pairs -/

section Pairs

variable [IsStrictOrderedRing K] (m : Math K) {xs ys xs' ys' : List (Option K)} {f g : K → K}

theorem spearman_eq (xs ys : List (Option K)) :
    spearman m xs ys = correlation m (completePairs xs ys)
      (fun p => rank ((completePairs xs ys).map Prod.fst) p.1)
      (fun p => rank ((completePairs xs ys).map Prod.snd) p.2) := by
  unfold spearman
  simp only [rankdata_eq, List.map_map]
  split_ifs with hshort
  · unfold correlation
    simp only [if_pos hshort]
  · exact pearson_map m (completePairs xs ys) _ _

omit [Field K] [LinearOrder K] [IsStrictOrderedRing K] in
theorem completePairs_map (f : K → K) (xs ys : List (Option K)) :
    completePairs (xs.map (Option.map f)) ys =
      (completePairs xs ys).map fun p => (f p.1, p.2) := by
  unfold completePairs
  rw [List.zip_map_left, List.filterMap_map, List.map_filterMap]
  congr 1
  funext p
  rcases p with ⟨_ | a, _ | b⟩ <;> rfl

omit [Field K] [LinearOrder K] [IsStrictOrderedRing K] in
theorem completePairs_swap (xs ys : List (Option K)) :
    completePairs ys xs = (completePairs xs ys).map Prod.swap := by
  unfold completePairs
  rw [← List.zip_swap, List.filterMap_map, List.map_filterMap]
  congr 1
  funext p
  rcases p with ⟨_ | a, _ | b⟩ <;> rfl

theorem spearman_comm (xs ys : List (Option K)) : spearman m ys xs = spearman m xs ys := by
  rw [spearman_eq, spearman_eq, completePairs_swap xs ys, correlation_map, List.map_map,
    List.map_map, correlation_comm]
  rfl

/-- A rising function of the first numbers. -/
theorem spearman_strictMono (hf : StrictMono f) (xs ys : List (Option K)) :
    spearman m (xs.map (Option.map f)) ys = spearman m xs ys := by
  rw [spearman_eq, spearman_eq, completePairs_map, correlation_map, List.map_map, List.map_map]
  apply correlation_congr
  · intro p hp
    show rank ((completePairs xs ys).map fun p => f p.1) (f p.1) = _
    have hrank := rank_strictMono hf ((completePairs xs ys).map Prod.fst) p.1
    rw [List.map_map] at hrank
    exact hrank
  · intro p hp
    rfl

/-- A falling one. -/
theorem spearman_strictAnti (hg : StrictAnti g) (xs ys : List (Option K)) :
    spearman m (xs.map (Option.map g)) ys = (spearman m xs ys).map (- ·) := by
  rw [spearman_eq, spearman_eq, completePairs_map, correlation_map, List.map_map, List.map_map,
    ← correlation_sub m (((completePairs xs ys).length : K) + 1)]
  apply correlation_congr
  · intro p hp
    show rank ((completePairs xs ys).map fun p => g p.1) (g p.1) = _
    have hrank := rank_strictAnti hg ((completePairs xs ys).map Prod.fst) p.1
    rw [List.map_map, List.length_map] at hrank
    exact hrank
  · intro p hp
    rfl

theorem spearman_perm (h : (xs.zip ys).Perm (xs'.zip ys')) :
    spearman m xs ys = spearman m xs' ys' := by
  have hpairs : (completePairs xs ys).Perm (completePairs xs' ys') := h.filterMap _
  rw [spearman_eq, spearman_eq, correlation_perm m hpairs]
  apply correlation_congr
  · intro p hp
    exact rank_perm (hpairs.map Prod.fst) p.1
  · intro p hp
    exact rank_perm (hpairs.map Prod.snd) p.2

end Pairs

/-! ## The statistic -/

section Statistic

variable (m : Math ℝ)

/-- The functions of `math` with the square root that is exact. -/
noncomputable def exactMath : Math ℝ := { m with sqrt := Real.sqrt }

/-- **Spearman's rho is a statistic of the ranks, and these are the ranks by counting.** -/
theorem spearman_rank_statistic (zs : List ℝ) (xs ys : List (Option ℝ)) :
    ((rankdata zs).length = zs.length ∧
      (∀ (i : Nat) (v : ℝ), zs[i]? = some v → (rankdata zs)[i]? =
        some ((zs.countP (· < v) : ℝ) + ((zs.countP (· = v) : ℝ) + 1) / 2)) ∧
      (rankdata zs).sum = zs.length * (zs.length + 1) / 2) ∧
    (∀ rho, spearman (exactMath m) xs ys = some rho → rho ^ 2 ≤ 1) ∧
    (∀ f, StrictMono f →
      spearman (exactMath m) (xs.map (Option.map f)) ys = spearman (exactMath m) xs ys ∧
      spearman (exactMath m) xs (ys.map (Option.map f)) = spearman (exactMath m) xs ys) ∧
    (∀ g, StrictAnti g →
      spearman (exactMath m) (xs.map (Option.map g)) ys = (spearman (exactMath m) xs ys).map (- ·) ∧
      spearman (exactMath m) xs (ys.map (Option.map g)) =
        (spearman (exactMath m) xs ys).map (- ·)) ∧
    ∀ xs' ys', (xs.zip ys).Perm (xs'.zip ys') →
      spearman (exactMath m) xs ys = spearman (exactMath m) xs' ys' := by
  refine ⟨⟨?_, ?_, ?_⟩, ?_, ?_, ?_, ?_⟩
  · rw [rankdata_eq, List.length_map]
  · intro i v hv
    rw [rankdata_eq, List.getElem?_map, hv, Option.map_some, rank_eq]
  · rw [rankdata_eq, sum_rank]
  · intro rho hrho
    rw [spearman_eq] at hrho
    exact correlation_sq_le (exactMath m) (fun t ht => Real.sq_sqrt ht) hrho
  · intro f hf
    refine ⟨spearman_strictMono _ hf xs ys, ?_⟩
    rw [spearman_comm, spearman_strictMono _ hf, spearman_comm]
  · intro g hg
    refine ⟨spearman_strictAnti _ hg xs ys, ?_⟩
    rw [spearman_comm, spearman_strictAnti _ hg, spearman_comm]
  · intro xs' ys' h
    exact spearman_perm _ h

end Statistic

end Analyze

end FakeBigLittle
