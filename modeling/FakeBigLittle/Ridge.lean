import Mathlib.Algebra.Order.BigOperators.Ring.Finset
import Mathlib.Data.Matrix.Mul
import Mathlib.LinearAlgebra.Matrix.Trace
import Mathlib.Tactic.LinearCombination

/-!
# Regularised least squares

The normal equations with `lam` on the diagonal have the one minimiser as their solution, and
their matrix is bounded below by `lam`.
-/

namespace Ridge

variable {K : Type} [Field K] {n : Nat}

/-- The regressors of an observation, and what was observed. -/
abbrev Row (K : Type) (n : Nat) := (Fin n → K) × K

def gram (rows : List (Row K n)) : Matrix (Fin n) (Fin n) K := fun i j =>
  (rows.map fun row => row.1 i * row.1 j).sum

def moment (rows : List (Row K n)) : Fin n → K := fun i =>
  (rows.map fun row => row.1 i * row.2).sum

/-- The normal equations, with `lam` added on the diagonal. -/
def normal (lam : K) (rows : List (Row K n)) : Matrix (Fin n) (Fin n) K := fun i j =>
  if i = j then gram rows i j + lam else gram rows i j

def cost (lam : K) (rows : List (Row K n)) (beta : Fin n → K) : K :=
  (rows.map fun row => (row.2 - row.1 ⬝ᵥ beta) ^ 2).sum + lam * ∑ i, beta i ^ 2

/-! ## The matrix -/

theorem dot_gram (rows : List (Row K n)) (d v : Fin n → K) :
    d ⬝ᵥ (gram rows).mulVec v =
      (rows.map fun row => (row.1 ⬝ᵥ d) * (row.1 ⬝ᵥ v)).sum := by
  induction rows with
  | nil =>
    have hzero : gram ([] : List (Row K n)) = 0 := by
      funext i j
      rfl
    rw [hzero, Matrix.zero_mulVec, dotProduct_zero]
    rfl
  | cons row rows ih =>
    have hcons : gram (row :: rows) = Matrix.vecMulVec row.1 row.1 + gram rows := by
      funext i j
      rfl
    rw [hcons, Matrix.add_mulVec, dotProduct_add, ih, List.map_cons, List.sum_cons,
      Matrix.vecMulVec_mulVec, dotProduct_comm row.1 d]
    simp [mul_comm]

theorem dot_moment (rows : List (Row K n)) (d : Fin n → K) :
    d ⬝ᵥ moment rows = (rows.map fun row => row.2 * (row.1 ⬝ᵥ d)).sum := by
  induction rows with
  | nil =>
    have hzero : moment ([] : List (Row K n)) = 0 := by
      funext i
      rfl
    rw [hzero, dotProduct_zero]
    rfl
  | cons row rows ih =>
    have hcons : moment (row :: rows) = row.2 • row.1 + moment rows := by
      funext i
      simp [moment, mul_comm]
    rw [hcons, dotProduct_add, dotProduct_smul, smul_eq_mul, ih, List.map_cons, List.sum_cons,
      dotProduct_comm d row.1]

theorem normal_mulVec (lam : K) (rows : List (Row K n)) (v : Fin n → K) :
    (normal lam rows).mulVec v = (gram rows).mulVec v + lam • v := by
  have hadd : normal lam rows = gram rows + lam • (1 : Matrix (Fin n) (Fin n) K) := by
    funext i j
    by_cases hij : i = j
    · simp [normal, hij]
    · simp [normal, hij]
  rw [hadd, Matrix.add_mulVec, Matrix.smul_mulVec, Matrix.one_mulVec]

theorem dot_normal (lam : K) (rows : List (Row K n)) (d v : Fin n → K) :
    d ⬝ᵥ (normal lam rows).mulVec v =
      (rows.map fun row => (row.1 ⬝ᵥ d) * (row.1 ⬝ᵥ v)).sum + lam * (d ⬝ᵥ v) := by
  rw [normal_mulVec, dotProduct_add, dotProduct_smul, smul_eq_mul, dot_gram]

/-! ## The minimum -/

theorem squares_add (rows : List (Row K n)) (beta d : Fin n → K) :
    (rows.map fun row => (row.2 - row.1 ⬝ᵥ (beta + d)) ^ 2).sum =
      (rows.map fun row => (row.2 - row.1 ⬝ᵥ beta) ^ 2).sum +
        (rows.map fun row => (row.1 ⬝ᵥ d) ^ 2).sum -
        2 * ((rows.map fun row => row.2 * (row.1 ⬝ᵥ d)).sum -
          (rows.map fun row => (row.1 ⬝ᵥ d) * (row.1 ⬝ᵥ beta)).sum) := by
  induction rows with
  | nil => simp
  | cons row rows ih =>
    simp only [List.map_cons, List.sum_cons, dotProduct_add] at ih ⊢
    rw [ih]
    ring

/-- What a step away from a solution of the normal equations does to the residuals. -/
theorem squares_add_normal {lam : K} {rows : List (Row K n)} {beta : Fin n → K}
    (h : (normal lam rows).mulVec beta = moment rows) (d : Fin n → K) :
    (rows.map fun row => (row.2 - row.1 ⬝ᵥ (beta + d)) ^ 2).sum =
      (rows.map fun row => (row.2 - row.1 ⬝ᵥ beta) ^ 2).sum +
        (rows.map fun row => (row.1 ⬝ᵥ d) ^ 2).sum - 2 * (lam * (d ⬝ᵥ beta)) := by
  have hnormal : (rows.map fun row => (row.1 ⬝ᵥ d) * (row.1 ⬝ᵥ beta)).sum + lam * (d ⬝ᵥ beta) =
      (rows.map fun row => row.2 * (row.1 ⬝ᵥ d)).sum := by
    rw [← dot_normal, h, dot_moment]
  rw [squares_add]
  linear_combination 2 * hnormal

/-- What a solution of the normal equations costs less than anything else. -/
theorem cost_add {lam : K} {rows : List (Row K n)} {beta : Fin n → K}
    (h : (normal lam rows).mulVec beta = moment rows) (d : Fin n → K) :
    cost lam rows (beta + d) = cost lam rows beta +
      ((rows.map fun row => (row.1 ⬝ᵥ d) ^ 2).sum + lam * ∑ i, d i ^ 2) := by
  have hsquares : ∑ i, (beta + d) i ^ 2 =
      ∑ i, beta i ^ 2 + 2 * (d ⬝ᵥ beta) + ∑ i, d i ^ 2 := by
    unfold dotProduct
    rw [Finset.mul_sum, ← Finset.sum_add_distrib, ← Finset.sum_add_distrib]
    apply Finset.sum_congr rfl
    intro i hi
    rw [Pi.add_apply]
    ring
  unfold cost
  rw [squares_add_normal h, hsquares]
  ring

/-- The same observation over and over: the solution is a multiple of the regressors. -/
theorem normal_replicate {lam t y : K} {k : Nat} {x : Fin n → K}
    (h : (k * (x ⬝ᵥ x) + lam) * t = k * y) :
    (normal lam (List.replicate k (x, y))).mulVec (t • x) = moment (List.replicate k (x, y)) := by
  rw [normal_mulVec]
  funext i
  have hgram : (gram (List.replicate k (x, y))).mulVec (t • x) i = k * (x i * (t * (x ⬝ᵥ x))) := by
    have hentry : ∀ j, gram (List.replicate k (x, y)) i j = k * (x i * x j) := by
      intro j
      simp [gram]
    unfold Matrix.mulVec
    simp only [hentry, dotProduct, Finset.mul_sum, Pi.smul_apply, smul_eq_mul]
    apply Finset.sum_congr rfl
    intro j hj
    ring
  have hmoment : moment (List.replicate k (x, y)) i = k * (x i * y) := by simp [moment]
  rw [Pi.add_apply, hgram, hmoment, Pi.smul_apply, Pi.smul_apply, smul_eq_mul, smul_eq_mul]
  linear_combination x i * h

section Ordered

variable [LinearOrder K] [IsStrictOrderedRing K]

theorem sum_squares_nonneg (rows : List (Row K n)) (d : Fin n → K) :
    0 ≤ (rows.map fun row => (row.1 ⬝ᵥ d) ^ 2).sum := by
  apply List.sum_nonneg
  intro t ht
  obtain ⟨row, -, rfl⟩ := List.mem_map.mp ht
  exact sq_nonneg _

/-- **The solution of the normal equations is the only minimiser.** -/
theorem cost_lt {lam : K} (hlam : 0 < lam) {rows : List (Row K n)} {beta beta' : Fin n → K}
    (h : (normal lam rows).mulVec beta = moment rows) (hne : beta' ≠ beta) :
    cost lam rows beta < cost lam rows beta' := by
  obtain ⟨i, hi⟩ := Function.ne_iff.mp hne
  have hpos : 0 < ∑ i, (beta' - beta) i ^ 2 := by
    apply Finset.sum_pos' fun i _ => sq_nonneg _
    exact ⟨i, Finset.mem_univ i, sq_pos_of_ne_zero (sub_ne_zero.mpr hi)⟩
  have hcost := cost_add h (beta' - beta)
  rw [add_sub_cancel] at hcost
  rw [hcost]
  exact lt_add_of_pos_right _
    (add_pos_of_nonneg_of_pos (sum_squares_nonneg rows _) (mul_pos hlam hpos))

/-- Nothing is made much smaller by the matrix. -/
theorem normal_bounded {lam : K} (hlam : 0 ≤ lam) (rows : List (Row K n)) (v : Fin n → K) :
    lam ^ 2 * ∑ i, v i ^ 2 ≤ ∑ i, (normal lam rows).mulVec v i ^ 2 := by
  have hself : v ⬝ᵥ v = ∑ i, v i ^ 2 := by
    unfold dotProduct
    apply Finset.sum_congr rfl
    intro i hi
    rw [sq]
  have hlow : lam * ∑ i, v i ^ 2 ≤ v ⬝ᵥ (normal lam rows).mulVec v := by
    rw [dot_normal, hself]
    refine le_add_of_nonneg_left ?_
    simpa only [sq] using sum_squares_nonneg rows v
  have hhigh : (v ⬝ᵥ (normal lam rows).mulVec v) ^ 2 ≤
      (∑ i, v i ^ 2) * ∑ i, (normal lam rows).mulVec v i ^ 2 :=
    Finset.sum_mul_sq_le_sq_mul_sq Finset.univ v _
  have hnonneg : 0 ≤ ∑ i, v i ^ 2 := Finset.sum_nonneg fun i _ => sq_nonneg _
  rcases hnonneg.eq_or_lt with hzero | hpos
  · rw [← hzero, mul_zero]
    exact Finset.sum_nonneg fun i _ => sq_nonneg _
  · have hsq : (lam * ∑ i, v i ^ 2) ^ 2 ≤ (v ⬝ᵥ (normal lam rows).mulVec v) ^ 2 :=
      pow_le_pow_left₀ (mul_nonneg hlam hnonneg) hlow 2
    refine le_of_mul_le_mul_left ?_ hpos
    calc (∑ i, v i ^ 2) * (lam ^ 2 * ∑ i, v i ^ 2) = (lam * ∑ i, v i ^ 2) ^ 2 := by ring
      _ ≤ (v ⬝ᵥ (normal lam rows).mulVec v) ^ 2 := hsq
      _ ≤ (∑ i, v i ^ 2) * ∑ i, (normal lam rows).mulVec v i ^ 2 := hhigh

end Ordered

end Ridge
