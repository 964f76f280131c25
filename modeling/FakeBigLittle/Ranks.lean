import Mathlib.Algebra.BigOperators.Fin
import Mathlib.Algebra.Order.BigOperators.Ring.Finset
import Mathlib.Data.List.Count
import Mathlib.Order.Monotone.Basic
import Mathlib.Tactic.LinearCombination
import Mathlib.Tactic.Linarith

/-!
# Ranks and correlation

The rank of a value by counting, ties at their mean. Only the order of the values matters to it,
and the ranks of a list add up to what the positions add up to.
-/

namespace Ranks

variable {ι K : Type} [Field K] [LinearOrder K]

/-- How many are smaller, and half of those that are equal and one. -/
def rank (xs : List K) (v : K) : K :=
  xs.countP (· < v) + (xs.countP (· = v) + 1 : ℕ) / (2 : ℕ)

/-- What one value adds to the rank of another. -/
def weight (a v : K) : K := if a < v then 1 else if a = v then 1 / (2 : ℕ) else 0

theorem rank_eq (xs : List K) (v : K) :
    rank xs v = xs.countP (· < v) + (xs.countP (· = v) + 1) / 2 := by
  unfold rank
  rw [Nat.cast_add, Nat.cast_one, Nat.cast_ofNat]

section Ranks

variable [IsStrictOrderedRing K] {xs : List K} {f : K → K}

/-! ## The sum -/

theorem rank_eq_sum (xs : List K) (v : K) :
    rank xs v = (xs.map fun a => weight a v).sum + 1 / 2 := by
  induction xs with
  | nil => simp [rank_eq]
  | cons x xs ih =>
    rw [List.map_cons, List.sum_cons, add_assoc, ← ih]
    unfold weight
    rw [rank_eq, rank_eq, List.countP_cons, List.countP_cons]
    rcases lt_trichotomy x v with hlt | heq | hgt
    · simp [hlt, hlt.ne]
      ring
    · simp [heq]
      ring
    · simp [hgt.not_gt, hgt.ne']

theorem weight_swap (a b : K) : weight a b + weight b a = 1 := by
  unfold weight
  rcases lt_trichotomy a b with hlt | heq | hgt
  · simp [hlt, hlt.not_gt, hlt.ne']
  · simp [heq]
    norm_num
  · simp [hgt, hgt.not_gt, hgt.ne']

/-- **The ranks add up to the positions, whatever the ties are.** -/
theorem sum_rank (xs : List K) : (xs.map (rank xs)).sum = xs.length * (xs.length + 1) / 2 := by
  have hweights : ∀ xs : List K, (xs.map fun v => (xs.map fun a => weight a v).sum).sum =
      (xs.length : K) ^ 2 / 2 := by
    intro xs
    induction xs with
    | nil => simp
    | cons x xs ih =>
      -- the new value against itself, and against the others in both places
      have hself : weight x x = (1 : K) / 2 := by simp [weight]
      have hothers : (xs.map fun a => weight a x).sum + (xs.map fun v => weight x v).sum =
          xs.length := by
        rw [← List.sum_map_add]
        simp [weight_swap]
      simp only [List.map_cons, List.sum_cons, List.sum_map_add, ih, hself, List.length_cons,
        Nat.cast_succ]
      linear_combination hothers
  have hsum : (xs.map (rank xs)).sum =
      (xs.map fun v => (xs.map fun a => weight a v).sum + 1 / 2).sum := by
    congr 1
    apply List.map_congr_left
    intro v hv
    exact rank_eq_sum xs v
  rw [hsum, List.sum_map_add, hweights]
  simp
  ring

/-! ## Only the order matters -/

omit [IsStrictOrderedRing K] in
theorem rank_perm {xs ys : List K} (h : xs.Perm ys) (v : K) : rank xs v = rank ys v := by
  unfold rank
  rw [h.countP_eq, h.countP_eq]

omit [IsStrictOrderedRing K] in
theorem rank_strictMono (hf : StrictMono f) (xs : List K) (v : K) :
    rank (xs.map f) (f v) = rank xs v := by
  unfold rank
  rw [List.countP_map, List.countP_map]
  simp only [Function.comp_def, hf.lt_iff_lt, hf.injective.eq_iff]

/-- From the other end. -/
theorem rank_strictAnti (hf : StrictAnti f) (xs : List K) (v : K) :
    rank (xs.map f) (f v) = xs.length + 1 - rank xs v := by
  have hswap : (xs.map fun a => weight (f a) (f v)).sum + (xs.map fun a => weight a v).sum =
      xs.length := by
    rw [← List.sum_map_add]
    have hone : ∀ a, weight (f a) (f v) + weight a v = 1 := by
      intro a
      rw [← weight_swap a v, add_comm]
      unfold weight
      simp only [hf.lt_iff_gt, hf.injective.eq_iff, eq_comm]
    simp [hone]
  rw [rank_eq_sum, rank_eq_sum, List.map_map]
  unfold Function.comp
  linear_combination hswap

end Ranks

/-! ## Correlation -/

variable [IsStrictOrderedRing K]

/-- The inequality of Cauchy and Schwarz, over a list. -/
theorem sum_mul_sq_le (l : List ι) (u v : ι → K) :
    (l.map fun i => u i * v i).sum ^ 2 ≤
      (l.map fun i => u i ^ 2).sum * (l.map fun i => v i ^ 2).sum := by
  simp only [← Fin.sum_univ_fun_getElem]
  exact Finset.sum_mul_sq_le_sq_mul_sq Finset.univ (fun i => u l[i]) fun i => v l[i]

end Ranks
