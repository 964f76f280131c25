import Mathlib.Algebra.BigOperators.Field
import Mathlib.Algebra.BigOperators.Fin
import Mathlib.Algebra.BigOperators.Intervals
import Mathlib.Algebra.Order.BigOperators.Ring.Finset
import Mathlib.Data.List.MinMax
import Mathlib.Data.Matrix.Mul
import Mathlib.LinearAlgebra.Matrix.ToLinearEquiv
import Mathlib.Logic.Equiv.Basic
import Mathlib.Tactic.FieldSimp

/-!
# Gaussian elimination with partial pivoting

A pivot below the threshold makes the system singular. Each step keeps the solutions, and a
matrix that is bounded below keeps its pivots away from zero.
-/

namespace Gauss

variable {K : Type} [Field K]

/-- The equations, a row each: the coefficients, and the right-hand side in column `n`. -/
abbrev System (K : Type) := Nat → Nat → K

def row (n : Nat) (M : System K) (r : Nat) (x : Nat → K) : K :=
  ∑ c ∈ Finset.range n, M r c * x c

def Sol (n : Nat) (M : System K) (x : Nat → K) : Prop := ∀ r < n, row n M r x = M r n

/-! ## The algorithm -/

def swap (M : System K) (i j : Nat) : System K := fun r => M (Equiv.swap i j r)

section Algorithm

variable [LinearOrder K]

/-- The row of the largest entry of the column, the first one of those. -/
def pivot (n : Nat) (M : System K) (col : Nat) : Nat :=
  ((List.range' col (n - col)).argmax fun r => |M r col|).getD col

def reduceRow (n col : Nat) (M : System K) (r : Nat) : System K :=
  let fac := M r col / M col col
  if fac = 0 then M
  else Function.update M r fun c =>
    if col ≤ c ∧ c < n + 1 then M r c - fac * M col c else M r c

def reduce (n col : Nat) (M : System K) : System K :=
  (List.range' (col + 1) (n - (col + 1))).foldl (reduceRow n col) M

def eliminate (eps : K) (n col : Nat) (M : System K) : Option (System K) :=
  if |M (pivot n M col) col| < eps then none
  else some (reduce n col (swap M col (pivot n M col)))

/-- The columns before `k`. -/
def forward (eps : K) (n : Nat) : Nat → System K → Option (System K)
  | 0, M => some M
  | col + 1, M => (forward eps n col M).bind (eliminate eps n col)

/-- The rows before `k`, from the last one. -/
def backFrom (n : Nat) (M : System K) : Nat → (Nat → K) → Nat → K
  | 0, x => x
  | r + 1, x =>
    let s := M r n - ∑ c ∈ Finset.Ico (r + 1) n, M r c * x c
    backFrom n M r (Function.update x r (s / M r r))

def backSub (n : Nat) (M : System K) : Nat → K := backFrom n M n fun _ => 0

def augment {n : Nat} (A : Matrix (Fin n) (Fin n) K) (b : Fin n → K) : System K := fun r c =>
  if hr : r < n then if hc : c < n then A ⟨r, hr⟩ ⟨c, hc⟩ else b ⟨r, hr⟩ else 0

def solve (eps : K) {n : Nat} (A : Matrix (Fin n) (Fin n) K) (b : Fin n → K) :
    Option (Fin n → K) :=
  (forward eps n n (augment A b)).map fun M r => backSub n M r

end Algorithm

/-! ## Rows -/

section Rows

variable [LinearOrder K] {n col : Nat} {M : System K} {x : Nat → K}

theorem pivot_spec (h : col < n) :
    col ≤ pivot n M col ∧ pivot n M col < n ∧
      ∀ r, col ≤ r → r < n → |M r col| ≤ |M (pivot n M col) col| := by
  have hmem : ∀ r, col ≤ r → r < n → r ∈ List.range' col (n - col) := by
    intro r hle hlt
    apply List.mem_range'_1.mpr
    omega
  obtain ⟨p, hp⟩ : ∃ p, (List.range' col (n - col)).argmax (fun r => |M r col|) = some p := by
    apply Option.ne_none_iff_exists'.mp
    intro hnone
    have := hmem col (le_refl _) h
    rw [List.argmax_eq_none.mp hnone] at this
    simp at this
  have heq : pivot n M col = p := by
    unfold pivot
    rw [hp, Option.getD_some]
  have hrange := List.mem_range'_1.mp (List.argmax_mem hp)
  rw [heq]
  refine ⟨hrange.1, by omega, ?_⟩
  intro r hle hlt
  exact List.le_of_mem_argmax (f := fun r => |M r col|) (hmem r hle hlt) hp

omit [LinearOrder K] in
theorem sol_swap {i j : Nat} (hi : i < n) (hj : j < n) :
    Sol n (swap M i j) x ↔ Sol n M x := by
  have hlt : ∀ r < n, Equiv.swap i j r < n := by
    intro r hr
    rw [Equiv.swap_apply_def]
    split_ifs <;> assumption
  constructor
  · intro hsol r hr
    have := hsol (Equiv.swap i j r) (hlt r hr)
    unfold row swap at this
    rwa [Equiv.swap_apply_self] at this
  · intro hsol r hr
    exact hsol (Equiv.swap i j r) (hlt r hr)

theorem reduceRow_apply (r r' c : Nat) :
    reduceRow n col M r r' c =
      if r' = r ∧ col ≤ c ∧ c < n + 1 then M r c - M r col / M col col * M col c
      else M r' c := by
  unfold reduceRow
  by_cases hfac : M r col / M col col = 0
  · rw [hfac]
    simp only [if_true, zero_mul, sub_zero]
    split_ifs with h
    · rw [h.1]
    · rfl
  · rw [if_neg hfac, Function.update_apply]
    split_ifs <;> simp_all

theorem foldl_reduceRow_apply {rows : List Nat} (hnodup : rows.Nodup) (hcol : col ∉ rows)
    (r c : Nat) :
    rows.foldl (reduceRow n col) M r c =
      if r ∈ rows ∧ col ≤ c ∧ c < n + 1 then M r c - M r col / M col col * M col c
      else M r c := by
  induction rows generalizing M with
  | nil => simp
  | cons r' rows ih =>
    obtain ⟨hr', hnodup⟩ := List.nodup_cons.mp hnodup
    rw [List.mem_cons, not_or] at hcol
    -- neither the row of the pivot nor one that is done changes
    have hother : ∀ r'' ≠ r', ∀ c, reduceRow n col M r' r'' c = M r'' c := by
      intro r'' hne c
      rw [reduceRow_apply, if_neg fun h => hne h.1]
    rw [List.foldl_cons, ih hnodup hcol.2, hother col hcol.1, hother col hcol.1]
    by_cases hr : r = r'
    · subst hr
      rw [if_neg fun h => hr' h.1, reduceRow_apply]
      simp
    · rw [hother r hr, hother r hr]
      simp [hr]

/-- Every row below the pivot loses its multiple of the row of the pivot. -/
theorem reduce_apply (r c : Nat) :
    reduce n col M r c =
      if col < r ∧ r < n ∧ col ≤ c ∧ c < n + 1 then M r c - M r col / M col col * M col c
      else M r c := by
  have hmem : r ∈ List.range' (col + 1) (n - (col + 1)) ↔ col < r ∧ r < n := by
    rw [List.mem_range'_1]
    omega
  unfold reduce
  rw [foldl_reduceRow_apply List.nodup_range' (by simp [List.mem_range'_1])]
  simp only [hmem, and_assoc]

end Rows

/-! ## Elimination -/

/-- The first `col` columns are done: no zero on the diagonal, only zeros below it. -/
structure Upper (n col : Nat) (M : System K) : Prop where
  diag : ∀ c < col, M c c ≠ 0
  below : ∀ c < col, ∀ r, c < r → r < n → M r c = 0

section Elimination

variable {n col : Nat} {M M' : System K}

theorem upper_swap {p : Nat} (h : Upper n col M) (hcol : col < n) (hle : col ≤ p) (hp : p < n) :
    Upper n col (swap M col p) := by
  constructor
  · intro c hc
    unfold swap
    rw [Equiv.swap_apply_of_ne_of_ne (by omega) (by omega)]
    exact h.diag c hc
  · intro c hc r hlt hr
    unfold swap
    rw [Equiv.swap_apply_def]
    split_ifs
    · exact h.below c hc p (by omega) hp
    · exact h.below c hc col hc hcol
    · exact h.below c hc r hlt hr

variable [LinearOrder K]

theorem upper_reduce (h : Upper n col M) (hcol : col < n) (hpivot : M col col ≠ 0) :
    Upper n (col + 1) (reduce n col M) := by
  constructor
  · intro c hc
    rw [reduce_apply, if_neg (by omega)]
    rcases Nat.lt_succ_iff_lt_or_eq.mp hc with hc | rfl
    · exact h.diag c hc
    · exact hpivot
  · intro c hc r hlt hr
    rw [reduce_apply]
    rcases Nat.lt_succ_iff_lt_or_eq.mp hc with hc | rfl
    · rw [if_neg (by omega)]
      exact h.below c hc r hlt hr
    · rw [if_pos (by omega)]
      field_simp
      ring

/-- The part of the row of the pivot that is not touched is zero. -/
theorem reduce_row (h : Upper n col M) (hcol : col < n) {r : Nat} (hlt : col < r) (hr : r < n)
    (c : Nat) (hc : c < n + 1) :
    reduce n col M r c = M r c - M r col / M col col * M col c := by
  rw [reduce_apply]
  by_cases hle : col ≤ c
  · rw [if_pos ⟨hlt, hr, hle, hc⟩]
  · rw [if_neg (by omega), h.below c (by omega) col (by omega) hcol, mul_zero, sub_zero]

theorem row_reduce (h : Upper n col M) (hcol : col < n) {r : Nat} (hlt : col < r) (hr : r < n)
    (x : Nat → K) :
    row n (reduce n col M) r x = row n M r x - M r col / M col col * row n M col x := by
  unfold row
  rw [Finset.mul_sum, ← Finset.sum_sub_distrib]
  apply Finset.sum_congr rfl
  intro c hc
  rw [reduce_row h hcol hlt hr c (Nat.lt_succ_of_lt (Finset.mem_range.mp hc))]
  ring

theorem row_reduce_of_le {r : Nat} (hle : r ≤ col) (x : Nat → K) :
    row n (reduce n col M) r x = row n M r x := by
  unfold row
  apply Finset.sum_congr rfl
  intro c hc
  rw [reduce_apply, if_neg (by omega)]

theorem sol_reduce (h : Upper n col M) (hcol : col < n) (x : Nat → K) :
    Sol n (reduce n col M) x ↔ Sol n M x := by
  have hsame : row n (reduce n col M) col x = reduce n col M col n ↔ row n M col x = M col n := by
    rw [row_reduce_of_le (le_refl _), reduce_apply, if_neg (by omega)]
  constructor
  · intro hsol r hr
    have hpivot := hsame.mp (hsol col hcol)
    have hrow := hsol r hr
    by_cases hlt : col < r
    · rw [row_reduce h hcol hlt hr, reduce_row h hcol hlt hr n (by omega), hpivot] at hrow
      exact sub_left_injective hrow
    · rwa [row_reduce_of_le (by omega), reduce_apply, if_neg (by omega)] at hrow
  · intro hsol r hr
    by_cases hlt : col < r
    · rw [row_reduce h hcol hlt hr, reduce_row h hcol hlt hr n (by omega), hsol col hcol,
        hsol r hr]
    · rw [row_reduce_of_le (by omega), reduce_apply, if_neg (by omega)]
      exact hsol r hr

variable [IsStrictOrderedRing K] {eps : K}

/-- One column. -/
theorem eliminate_cases (heps : 0 < eps) (hcol : col < n) (h : Upper n col M)
    (hstep : eliminate eps n col M = some M') :
    ∃ p, col ≤ p ∧ p < n ∧ Upper n col (swap M col p) ∧ swap M col p col col ≠ 0 ∧
      M' = reduce n col (swap M col p) := by
  obtain ⟨hle, hp, -⟩ := pivot_spec (M := M) hcol
  unfold eliminate at hstep
  split_ifs at hstep with hsmall
  refine ⟨pivot n M col, hle, hp, upper_swap h hcol hle hp, ?_, (Option.some.inj hstep).symm⟩
  unfold swap
  rw [Equiv.swap_apply_left]
  intro hzero
  rw [hzero, abs_zero] at hsmall
  exact hsmall heps

theorem forward_spec (heps : 0 < eps) {k : Nat} (hk : k ≤ n)
    (hrun : forward eps n k M = some M') :
    Upper n k M' ∧ ∀ x, Sol n M' x ↔ Sol n M x := by
  induction k generalizing M' with
  | zero =>
    obtain rfl := Option.some.inj hrun
    exact ⟨⟨fun c hc => absurd hc (Nat.not_lt_zero c), fun c hc => absurd hc (Nat.not_lt_zero c)⟩,
      fun x => Iff.rfl⟩
  | succ col ih =>
    obtain ⟨M₁, hrun, hstep⟩ := Option.bind_eq_some_iff.mp hrun
    obtain ⟨hupper, hsol⟩ := ih (by omega) hrun
    obtain ⟨p, -, hp, hupper, hpivot, rfl⟩ := eliminate_cases heps hk hupper hstep
    refine ⟨upper_reduce hupper hk hpivot, fun x => ?_⟩
    rw [sol_reduce hupper hk, sol_swap hk hp]
    exact hsol x

end Elimination

/-! ## Back substitution -/

section BackSubstitution

variable {n : Nat} {M : System K}

/-- Above the diagonal only the later unknowns count. -/
theorem row_upper (h : Upper n n M) {r : Nat} (hr : r < n) (x : Nat → K) :
    row n M r x = M r r * x r + ∑ c ∈ Finset.Ico (r + 1) n, M r c * x c := by
  have hzero : ∑ c ∈ Finset.range r, M r c * x c = 0 := by
    apply Finset.sum_eq_zero
    intro c hc
    have hlt := Finset.mem_range.mp hc
    rw [h.below c (by omega) r hlt hr, zero_mul]
  unfold row
  rw [← Finset.sum_range_add_sum_Ico _ hr.le, hzero, zero_add,
    Finset.sum_eq_sum_Ico_succ_bot hr]

theorem backFrom_of_le (k : Nat) (x : Nat → K) {c : Nat} (hc : k ≤ c) :
    backFrom n M k x c = x c := by
  induction k generalizing x with
  | zero => rfl
  | succ r ih =>
    unfold backFrom
    rw [ih _ (by omega), Function.update_of_ne (by omega)]

theorem backFrom_row (h : Upper n n M) {k : Nat} (hk : k ≤ n) (x : Nat → K) {r : Nat}
    (hr : r < k) : row n M r (backFrom n M k x) = M r n := by
  induction k generalizing x with
  | zero => omega
  | succ k ih =>
    rcases Nat.lt_succ_iff_lt_or_eq.mp hr with hr | rfl
    · exact ih (by omega) _ hr
    · have hlater : ∑ c ∈ Finset.Ico (r + 1) n, M r c * backFrom n M (r + 1) x c =
          ∑ c ∈ Finset.Ico (r + 1) n, M r c * x c := by
        apply Finset.sum_congr rfl
        intro c hc
        rw [backFrom_of_le _ _ (Finset.mem_Ico.mp hc).1]
      have hdiag := h.diag r hk
      rw [row_upper h hk, hlater]
      unfold backFrom
      rw [backFrom_of_le _ _ (le_refl r), Function.update_self]
      field_simp
      ring

/-- A triangular system has one solution. -/
theorem sol_iff (h : Upper n n M) (x : Nat → K) : Sol n M x ↔ ∀ c < n, x c = backSub n M c := by
  have hsol : Sol n M (backSub n M) := fun r hr => backFrom_row h (le_refl n) _ hr
  constructor
  · intro hx
    -- from the last unknown upwards
    have hfrom : ∀ k ≤ n, ∀ c, n - k ≤ c → c < n → x c = backSub n M c := by
      intro k hk
      induction k with
      | zero =>
        intro c hle hlt
        omega
      | succ k ih =>
        intro c hle hlt
        rcases Nat.lt_or_ge c (n - k) with hc | hc
        · have hlater : ∑ c' ∈ Finset.Ico (c + 1) n, M c c' * x c' =
              ∑ c' ∈ Finset.Ico (c + 1) n, M c c' * backSub n M c' := by
            apply Finset.sum_congr rfl
            intro c' hc'
            obtain ⟨hle', hlt'⟩ := Finset.mem_Ico.mp hc'
            rw [ih (by omega) c' (by omega) hlt']
          have heq := (hx c hlt).trans (hsol c hlt).symm
          rw [row_upper h hlt, row_upper h hlt, hlater, add_left_inj] at heq
          exact mul_left_cancel₀ (h.diag c hlt) heq
        · exact ih (by omega) c hc hlt
    intro c hc
    exact hfrom n (le_refl n) c (by omega) hc
  · intro hx r hr
    rw [← hsol r hr]
    unfold row
    apply Finset.sum_congr rfl
    intro c hc
    rw [hx c (Finset.mem_range.mp hc)]

end BackSubstitution

/-! ## The solution -/

section Solve

variable {n : Nat} {A : Matrix (Fin n) (Fin n) K} {b : Fin n → K}

-- The unknowns of the loops, from those of the system.
def pad (x : Fin n → K) (c : Nat) : K := if h : c < n then x ⟨c, h⟩ else 0

theorem row_augment (x : Nat → K) (r : Fin n) :
    row n (augment A b) r x = ∑ c : Fin n, A r c * x c := by
  unfold row
  rw [Finset.sum_range]
  apply Finset.sum_congr rfl
  intro c hc
  simp [augment]

theorem sol_augment (x : Fin n → K) : Sol n (augment A b) (pad x) ↔ A.mulVec x = b := by
  have hrow : ∀ r : Fin n, row n (augment A b) r (pad x) = A.mulVec x r := by
    intro r
    rw [row_augment]
    simp [pad, Matrix.mulVec, dotProduct]
  constructor
  · intro hsol
    funext r
    rw [← hrow r, hsol r r.isLt]
    simp [augment]
  · intro hsol r hr
    rw [hrow ⟨r, hr⟩, hsol]
    simp [augment, hr]

variable [LinearOrder K] [IsStrictOrderedRing K] {eps : K}

/-- What is returned is the only solution. -/
theorem solve_spec (heps : 0 < eps) {x : Fin n → K} (h : solve eps A b = some x)
    (y : Fin n → K) : A.mulVec y = b ↔ y = x := by
  obtain ⟨M, hrun, rfl⟩ := Option.map_eq_some_iff.mp h
  obtain ⟨hupper, hsol⟩ := forward_spec heps (le_refl n) hrun
  rw [← sol_augment, ← hsol, sol_iff hupper]
  constructor
  · intro hy
    funext r
    simpa [pad] using hy r r.isLt
  · rintro rfl c hc
    simp [pad, hc]

/-- What has no inverse is not solved, for any right-hand side. -/
theorem solve_singular (heps : 0 < eps) (h : A.det = 0) : solve eps A b = none := by
  obtain ⟨v, hv, hzero⟩ := Matrix.exists_mulVec_eq_zero_iff.mpr h
  rw [Option.eq_none_iff_forall_ne_some]
  intro x hx
  have hsolves : A.mulVec x = b := (solve_spec heps hx x).mpr rfl
  -- `v` can be added to a solution
  have hother : A.mulVec (x + v) = b := by rw [Matrix.mulVec_add, hsolves, hzero, add_zero]
  have hsame := (solve_spec heps hx (x + v)).mp hother
  exact hv (add_eq_left.mp hsame)

end Solve

/-! ## Matrices that are bounded below -/

section Bounded

variable [LinearOrder K] {n col : Nat} {M : System K}

/-- Where the equations that are done hold, the others are as large as the unknowns. -/
def Bounded (lam : K) (n col : Nat) (M : System K) : Prop :=
  ∀ x : Nat → K, (∀ r < col, row n M r x = 0) →
    lam * ∑ c ∈ Finset.range n, x c ^ 2 ≤ ∑ r ∈ Finset.Ico col n, row n M r x ^ 2

variable {lam eps : K}

theorem bounded_swap {p : Nat} (h : Bounded lam n col M) (hcol : col < n) (hle : col ≤ p)
    (hp : p < n) : Bounded lam n col (swap M col p) := by
  intro x hx
  have hrows : ∑ r ∈ Finset.Ico col n, row n (swap M col p) r x ^ 2 =
      ∑ r ∈ Finset.Ico col n, row n M r x ^ 2 := by
    apply Finset.sum_equiv (Equiv.swap col p)
    · intro r
      rw [Finset.mem_Ico, Finset.mem_Ico, Equiv.swap_apply_def]
      split_ifs <;> omega
    · intro r hr
      rfl
  rw [hrows]
  apply h x
  intro r hr
  have hrow := hx r hr
  unfold row swap at hrow
  rwa [Equiv.swap_apply_of_ne_of_ne (by omega) (by omega)] at hrow

theorem bounded_reduce (h : Bounded lam n col M) (hupper : Upper n col M) (hcol : col < n) :
    Bounded lam n (col + 1) (reduce n col M) := by
  intro x hx
  have hpivot : row n M col x = 0 := by
    rw [← row_reduce_of_le (le_refl col)]
    exact hx col (Nat.lt_succ_self col)
  have hdone : ∀ r < col, row n M r x = 0 := by
    intro r hr
    rw [← row_reduce_of_le hr.le]
    exact hx r (Nat.lt_succ_of_lt hr)
  have hrows : ∑ r ∈ Finset.Ico (col + 1) n, row n (reduce n col M) r x ^ 2 =
      ∑ r ∈ Finset.Ico col n, row n M r x ^ 2 := by
    rw [Finset.sum_eq_sum_Ico_succ_bot hcol, hpivot, zero_pow two_ne_zero, zero_add]
    apply Finset.sum_congr rfl
    intro r hr
    obtain ⟨hlt, hr⟩ := Finset.mem_Ico.mp hr
    rw [row_reduce hupper hcol hlt hr, hpivot, mul_zero, sub_zero]
  rw [hrows]
  exact h x hdone

/-- The unknowns that undo the first columns of column `col`, which has `-1` itself. -/
def probe (col : Nat) (M : System K) (c : Nat) : K :=
  if c < col then backSub col M c else if c = col then -1 else 0

omit [LinearOrder K] in
theorem row_probe (h : Upper n col M) (hcol : col < n) :
    (∀ r < col, row n M r (probe col M) = 0) ∧
      ∀ r, col ≤ r → r < n → row n M r (probe col M) = -M r col := by
  have hrow : ∀ r, row n M r (probe col M) = row col M r (backSub col M) - M r col := by
    intro r
    have hlow : ∑ c ∈ Finset.range col, M r c * probe col M c = row col M r (backSub col M) := by
      apply Finset.sum_congr rfl
      intro c hc
      rw [probe, if_pos (Finset.mem_range.mp hc)]
    have hhigh : ∑ c ∈ Finset.Ico (col + 1) n, M r c * probe col M c = 0 := by
      apply Finset.sum_eq_zero
      intro c hc
      have hlt := (Finset.mem_Ico.mp hc).1
      rw [probe, if_neg (by omega), if_neg (by omega), mul_zero]
    unfold row at hlow ⊢
    rw [← Finset.sum_range_add_sum_Ico _ hcol.le, Finset.sum_eq_sum_Ico_succ_bot hcol, hlow, hhigh,
      probe, if_neg (lt_irrefl col), if_pos rfl]
    ring
  have hlead : Upper col col M := by
    exact ⟨h.diag, fun c hc r hlt hr => h.below c hc r hlt (by omega)⟩
  constructor
  · intro r hr
    have hsol : Sol col M (backSub col M) := (sol_iff hlead _).mpr fun c hc => rfl
    rw [hrow, hsol r hr, sub_self]
  · intro r hle hr
    have hzero : row col M r (backSub col M) = 0 := by
      apply Finset.sum_eq_zero
      intro c hc
      have hlt := Finset.mem_range.mp hc
      rw [h.below c hlt r (by omega) hr, zero_mul]
    rw [hrow, hzero, zero_sub]

variable [IsStrictOrderedRing K]

/-- The pivot is not small. -/
theorem pivot_large (hlam : 0 ≤ lam) (heps : n * eps ^ 2 < lam) (hcol : col < n)
    (hupper : Upper n col M) (h : Bounded lam n col M) : eps ≤ |M (pivot n M col) col| := by
  by_contra hsmall
  have hsmall := not_le.mp hsmall
  obtain ⟨-, -, hmax⟩ := pivot_spec (M := M) hcol
  obtain ⟨hdone, hrows⟩ := row_probe hupper hcol
  have hone : (1 : K) ≤ ∑ c ∈ Finset.range n, probe col M c ^ 2 := by
    have hcol' : probe col M col ^ 2 = 1 := by
      rw [probe, if_neg (lt_irrefl col), if_pos rfl]
      ring
    rw [← hcol']
    exact Finset.single_le_sum (fun c _ => sq_nonneg (probe col M c)) (Finset.mem_range.mpr hcol)
  have hentry : ∀ r ∈ Finset.Ico col n, row n M r (probe col M) ^ 2 ≤ eps ^ 2 := by
    intro r hr
    obtain ⟨hle, hr⟩ := Finset.mem_Ico.mp hr
    rw [hrows r hle hr, neg_sq, sq_le_sq, abs_of_pos (lt_of_le_of_lt (abs_nonneg _) hsmall)]
    exact (hmax r hle hr).trans hsmall.le
  have hcount : ((n - col : Nat) : K) * eps ^ 2 ≤ n * eps ^ 2 := by
    apply mul_le_mul_of_nonneg_right _ (sq_nonneg eps)
    exact_mod_cast Nat.sub_le n col
  have hbound : lam ≤ n * eps ^ 2 := by
    calc lam = lam * 1 := (mul_one lam).symm
      _ ≤ lam * ∑ c ∈ Finset.range n, probe col M c ^ 2 := mul_le_mul_of_nonneg_left hone hlam
      _ ≤ ∑ r ∈ Finset.Ico col n, row n M r (probe col M) ^ 2 := h _ hdone
      _ ≤ ∑ _r ∈ Finset.Ico col n, eps ^ 2 := Finset.sum_le_sum hentry
      _ = ((n - col : Nat) : K) * eps ^ 2 := by
        rw [Finset.sum_const, Nat.card_Ico, nsmul_eq_mul]
      _ ≤ n * eps ^ 2 := hcount
  exact absurd hbound (not_le.mpr heps)

theorem forward_bounded (hlam : 0 ≤ lam) (heps : 0 < eps) (hsmall : n * eps ^ 2 < lam)
    (h : Bounded lam n 0 M) {k : Nat} (hk : k ≤ n) :
    ∃ M', forward eps n k M = some M' ∧ Bounded lam n k M' := by
  induction k with
  | zero => exact ⟨M, rfl, h⟩
  | succ col ih =>
    obtain ⟨M', hrun, hbounded⟩ := ih (by omega)
    obtain ⟨hupper, -⟩ := forward_spec heps (by omega) hrun
    obtain ⟨hle, hp, -⟩ := pivot_spec (M := M') hk
    have hpivot := pivot_large hlam hsmall hk hupper hbounded
    refine ⟨reduce n col (swap M' col (pivot n M' col)), ?_, ?_⟩
    · rw [forward, hrun, Option.bind_some, eliminate, if_neg (not_lt.mpr hpivot)]
    · exact bounded_reduce (bounded_swap hbounded hk hle hp) (upper_swap hupper hk hle hp) hk

/-- **A matrix that is bounded below is never taken for a singular one.** -/
theorem solve_isSome {A : Matrix (Fin n) (Fin n) K} {b : Fin n → K} (hlam : 0 ≤ lam)
    (heps : 0 < eps) (hsmall : n * eps ^ 2 < lam)
    (h : ∀ x, lam * ∑ c, x c ^ 2 ≤ ∑ r, A.mulVec x r ^ 2) : ∃ x, solve eps A b = some x := by
  have hbounded : Bounded lam n 0 (augment A b) := by
    intro x hx
    rw [← Finset.range_eq_Ico, Finset.sum_range, Finset.sum_range]
    simp only [row_augment]
    exact h fun c => x c
  obtain ⟨M, hrun, -⟩ := forward_bounded hlam heps hsmall hbounded (le_refl n)
  unfold solve
  rw [hrun]
  exact ⟨_, rfl⟩

end Bounded

end Gauss
