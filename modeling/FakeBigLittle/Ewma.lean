import Mathlib.Algebra.Order.Group.Nat

/-!
# Integer moving averages

The average moves to each sample by one part in `k + 1`, rounded down. It stops up to `k`
below a constant sample, and right at it when it comes from above.
-/

namespace Ewma

def step (k e x : Nat) : Nat := (k * e + x) / (k + 1)

variable {k e x b : Nat} {xs : List Nat}

/-! ## One sample -/

theorem step_le (he : e ≤ b) (hx : x ≤ b) : step k e x ≤ b := by
  have hmul : k * e ≤ k * b := Nat.mul_le_mul_left k he
  apply Nat.div_le_of_le_mul
  rw [Nat.add_one_mul]
  omega

theorem le_step (he : b ≤ e) (hx : b ≤ x) : b ≤ step k e x := by
  have hmul : k * b ≤ k * e := Nat.mul_le_mul_left k he
  rw [step, Nat.le_div_iff_mul_le (Nat.succ_pos k), Nat.mul_add_one, Nat.mul_comm b]
  omega

/-- A sample that is `k + 1` above the average lifts it. -/
theorem lt_step (h : e + k + 1 ≤ x) : e < step k e x := by
  rw [step, Nat.lt_iff_add_one_le, Nat.le_div_iff_mul_le (Nat.succ_pos k), Nat.mul_add_one,
    Nat.add_mul, Nat.mul_comm e]
  omega

/-- Any sample below the average lowers it. -/
theorem step_lt (h : x < e) : step k e x < e := by
  rw [step, Nat.div_lt_iff_lt_mul (Nat.succ_pos k), Nat.mul_add_one, Nat.mul_comm e]
  omega

/-! ## Many samples -/

theorem foldl_le (he : e ≤ b) (h : ∀ x ∈ xs, x ≤ b) : xs.foldl (step k) e ≤ b := by
  induction xs generalizing e with
  | nil => exact he
  | cons x xs ih =>
    rw [List.forall_mem_cons] at h
    exact ih (step_le he h.1) h.2

theorem le_foldl (he : b ≤ e) (h : ∀ x ∈ xs, b ≤ x) : b ≤ xs.foldl (step k) e := by
  induction xs generalizing e with
  | nil => exact he
  | cons x xs ih =>
    rw [List.forall_mem_cons] at h
    exact ih (le_step he h.1) h.2

/-- Samples that are `k + 1` above `b` lift the average by one each until it is above `b`. -/
theorem climbs (h : ∀ x ∈ xs, b + k + 1 ≤ x) :
    min (b + 1) (e + xs.length) ≤ xs.foldl (step k) e := by
  induction xs generalizing e with
  | nil => exact Nat.min_le_right ..
  | cons x xs ih =>
    rw [List.forall_mem_cons] at h
    have hrest := ih (e := step k e x) h.2
    rw [List.foldl_cons, List.length_cons]
    rcases Nat.lt_or_ge b e with habove | hbelow
    · have hstay : b + 1 ≤ xs.foldl (step k) (step k e x) :=
        le_foldl (le_step habove (by omega)) fun y hy => by have := h.2 y hy; omega
      omega
    · have hup : e < step k e x := lt_step (by omega)
      omega

/-- Samples below `b` lower the average by one each until it is below `b`. -/
theorem sinks (h : ∀ x ∈ xs, x < b) :
    xs.foldl (step k) e < b ∨ xs.foldl (step k) e + xs.length ≤ e := by
  induction xs generalizing e with
  | nil => exact Or.inr (Nat.le_refl _)
  | cons x xs ih =>
    rw [List.forall_mem_cons] at h
    rw [List.foldl_cons, List.length_cons]
    rcases Nat.lt_or_ge e b with hbelow | habove
    · left
      have hstay : xs.foldl (step k) (step k e x) ≤ b - 1 :=
        foldl_le (step_le (by omega) (by omega)) fun y hy => by have := h.2 y hy; omega
      omega
    · have hdown : step k e x < e := step_lt (by omega)
      rcases ih (e := step k e x) h.2 with hlt | hle
      · exact Or.inl hlt
      · right
        omega

end Ewma
