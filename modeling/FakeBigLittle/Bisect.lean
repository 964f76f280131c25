import Mathlib.Algebra.Order.Field.Basic
import Mathlib.Order.Monotone.Basic
import Mathlib.Tactic.FieldSimp
import Mathlib.Tactic.Linarith
import Mathlib.Tactic.Ring

/-!
# Bisection

Two points with a predicate that fails at the lower and holds at the upper one are halved until
they are close. The halves are points of a grid, so a monotone predicate fails on the grid up
to the lower point and no further.
-/

namespace Bisect

variable {K : Type} [Field K] [LinearOrder K]

/-- The half in which the predicate begins to hold. -/
def halve (holds : K → Bool) (b : K × K) : K × K :=
  if holds ((b.1 + b.2) / (2 : Nat)) then (b.1, (b.1 + b.2) / (2 : Nat))
  else ((b.1 + b.2) / (2 : Nat), b.2)

/-- At most `fuel` rounds, until the two points are closer than `tol`. -/
def search (holds : K → Bool) (tol : K) : Nat → K × K → K × K
  | 0, b => b
  | fuel + 1, b =>
    if (halve holds b).2 - (halve holds b).1 < tol then halve holds b
    else search holds tol fuel (halve holds b)

structure Brackets (holds : K → Bool) (b : K × K) : Prop where
  lower : holds b.1 = false
  upper : holds b.2 = true
  le : b.1 ≤ b.2

/-- The point `i` of the grid that divides `b` into `2 ^ k` parts. -/
def grid (b : K × K) (k i : Nat) : K := b.1 + i * ((b.2 - b.1) / (2 ^ k : Nat))

variable [IsStrictOrderedRing K] {holds : K → Bool} {tol : K} {b : K × K} {fuel k : Nat}

/-! ## One round -/

theorem halve_width (holds : K → Bool) (b : K × K) :
    (halve holds b).2 - (halve holds b).1 = (b.2 - b.1) / 2 := by
  unfold halve
  split_ifs <;> push_cast <;> ring

theorem halve_within (holds : K → Bool) (hle : b.1 ≤ b.2) :
    b.1 ≤ (halve holds b).1 ∧ (halve holds b).1 ≤ (halve holds b).2 ∧ (halve holds b).2 ≤ b.2 := by
  unfold halve
  rw [Nat.cast_ofNat]
  split_ifs
  · exact ⟨le_refl _, by linarith, by linarith⟩
  · exact ⟨by linarith, by linarith, le_refl _⟩

theorem halve_brackets (h : Brackets holds b) : Brackets holds (halve holds b) := by
  have hwithin := halve_within holds h.le
  unfold halve at hwithin ⊢
  split_ifs at hwithin ⊢ with hmid
  · exact ⟨h.lower, hmid, hwithin.2.1⟩
  · exact ⟨by simpa using hmid, h.upper, hwithin.2.1⟩

/-! ## The search -/

theorem search_within (holds : K → Bool) (tol : K) (fuel : Nat) (hle : b.1 ≤ b.2) :
    b.1 ≤ (search holds tol fuel b).1 ∧ (search holds tol fuel b).2 ≤ b.2 := by
  induction fuel generalizing b with
  | zero => exact ⟨le_refl _, le_refl _⟩
  | succ fuel ih =>
    obtain ⟨hlower, hmid, hupper⟩ := halve_within holds hle
    unfold search
    split_ifs
    · exact ⟨hlower, hupper⟩
    · obtain ⟨hleft, hright⟩ := ih hmid
      exact ⟨hlower.trans hleft, hright.trans hupper⟩

theorem search_brackets (tol : K) (fuel : Nat) (h : Brackets holds b) :
    Brackets holds (search holds tol fuel b) := by
  induction fuel generalizing b with
  | zero => exact h
  | succ fuel ih =>
    unfold search
    split_ifs
    · exact halve_brackets h
    · exact ih (halve_brackets h)

/-- Enough rounds bring the points close. -/
theorem search_width (holds : K → Bool) (h : (b.2 - b.1) / 2 ^ fuel < tol) :
    (search holds tol fuel b).2 - (search holds tol fuel b).1 < tol := by
  induction fuel generalizing b with
  | zero => simpa [search] using h
  | succ fuel ih =>
    unfold search
    split_ifs with hclose
    · exact hclose
    · apply ih
      rw [halve_width, div_div, ← pow_succ']
      exact h

/-- Where one predicate holds whenever the other does, its search ends no higher. -/
theorem search_mono {holds' : K → Bool} (hle : b.1 ≤ b.2)
    (himp : ∀ x, b.1 ≤ x → holds' x = true → holds x = true) :
    (search holds tol fuel b).1 ≤ (search holds' tol fuel b).1 := by
  have hends : ∀ (p : K → Bool) (n : Nat) {c : K × K}, c.1 ≤ c.2 →
      (search p tol n c).1 ≤ (search p tol n c).2 := by
    intro p n
    induction n with
    | zero => exact fun h => h
    | succ n ih =>
      intro c hc
      unfold search
      split_ifs
      · exact (halve_within p hc).2.1
      · exact ih (halve_within p hc).2.1
  induction fuel generalizing b with
  | zero => exact le_refl _
  | succ fuel ih =>
    have hwidth : (halve holds' b).2 - (halve holds' b).1 =
        (halve holds b).2 - (halve holds b).1 := by rw [halve_width, halve_width]
    by_cases heq : halve holds b = halve holds' b
    · unfold search
      rw [← heq]
      split_ifs
      · exact le_refl _
      · obtain ⟨hfirst, hsecond, -⟩ := halve_within holds hle
        exact ih hsecond fun x hx => himp x (hfirst.trans hx)
    · -- The rounds part at the middle: one search stays below it, the other above.
      have hapart : (halve holds b).2 ≤ (halve holds' b).1 := by
        have hmid : b.1 ≤ (b.1 + b.2) / (2 : Nat) := by
          rw [Nat.cast_ofNat]
          linarith
        unfold halve at heq ⊢
        split_ifs at heq ⊢ with hholds hholds'
        · exact absurd rfl heq
        · exact le_refl _
        · exact absurd (himp _ hmid ‹_›) hholds
        · exact absurd rfl heq
      obtain ⟨-, hlow, -⟩ := halve_within holds hle
      obtain ⟨-, hhigh, -⟩ := halve_within holds' hle
      unfold search
      rw [hwidth]
      split_ifs
      · exact hlow.trans hapart
      · exact ((hends holds fuel hlow).trans (search_within holds tol fuel hlow).2).trans
          (hapart.trans (search_within holds' tol fuel hhigh).1)

/-! ## The grid -/

omit [LinearOrder K] [IsStrictOrderedRing K] in
theorem grid_zero (b : K × K) (k : Nat) : grid b k 0 = b.1 := by
  unfold grid
  rw [Nat.cast_zero, zero_mul, add_zero]

theorem grid_last (b : K × K) (k : Nat) : grid b k (2 ^ k) = b.2 := by
  unfold grid
  rw [mul_div_cancel₀ _ (by positivity)]
  ring

theorem grid_mono (hle : b.1 ≤ b.2) (k : Nat) : Monotone (grid b k) := by
  intro i j hij
  unfold grid
  have hstep : 0 ≤ (b.2 - b.1) / (2 ^ k : Nat) := div_nonneg (sub_nonneg.mpr hle) (by positivity)
  have hcast : (i : K) ≤ j := Nat.cast_le.mpr hij
  exact add_le_add_right (mul_le_mul_of_nonneg_right hcast hstep) _

theorem grid_strictMono (hlt : b.1 < b.2) (k : Nat) : StrictMono (grid b k) := by
  intro i j hij
  unfold grid
  have hstep : 0 < (b.2 - b.1) / (2 ^ k : Nat) := div_pos (sub_pos.mpr hlt) (by positivity)
  have hcast : (i : K) < j := Nat.cast_lt.mpr hij
  exact add_lt_add_right (mul_lt_mul_of_pos_right hcast hstep) _

/-- The grid of the half that a round keeps is part of the grid. -/
theorem grid_halve (holds : K → Bool) (b : K × K) (k : Nat) :
    ∃ first ≤ 2 ^ k, ∀ i, grid (halve holds b) k i = grid b (k + 1) (first + i) := by
  have hpow : (2 : K) ^ k ≠ 0 := by positivity
  unfold grid
  rw [halve_width]
  unfold halve
  split_ifs
  · refine ⟨0, Nat.zero_le _, fun i => ?_⟩
    rw [Nat.zero_add, Nat.cast_pow, Nat.cast_pow, Nat.cast_ofNat, div_div, ← pow_succ']
  · refine ⟨2 ^ k, le_refl _, fun i => ?_⟩
    push_cast
    field_simp
    ring

/-- The search ends at two neighbours of the grid that is just fine enough. -/
theorem search_grid (holds : K → Bool) (hle : b.1 ≤ b.2) (hk : k < fuel)
    (hclose : (b.2 - b.1) / 2 ^ (k + 1) < tol) (hwide : tol ≤ (b.2 - b.1) / 2 ^ k) :
    ∃ j, search holds tol fuel b = (grid b (k + 1) j, grid b (k + 1) (j + 1)) := by
  induction k generalizing b fuel with
  | zero =>
    obtain ⟨fuel, rfl⟩ : ∃ n, fuel = n + 1 := ⟨fuel - 1, by omega⟩
    obtain ⟨first, -, hfirst⟩ := grid_halve holds b 0
    have hstop : (halve holds b).2 - (halve holds b).1 < tol := by
      rw [halve_width]
      simpa using hclose
    have hlower := (hfirst 0).symm.trans (grid_zero _ 0)
    have hupper := (hfirst 1).symm.trans (grid_last (halve holds b) 0)
    exact ⟨first, by rw [search, if_pos hstop, hupper]; exact Prod.ext hlower.symm rfl⟩
  | succ k ih =>
    obtain ⟨fuel, rfl⟩ : ∃ n, fuel = n + 1 := ⟨fuel - 1, by omega⟩
    obtain ⟨first, -, hfirst⟩ := grid_halve holds b (k + 1)
    have hgo : ¬ (halve holds b).2 - (halve holds b).1 < tol := by
      have hpow : (b.2 - b.1) / 2 ^ (k + 1) ≤ (b.2 - b.1) / 2 := by
        apply div_le_div_of_nonneg_left (sub_nonneg.mpr hle) (by norm_num)
        exact le_self_pow₀ (by norm_num) (by omega)
      rw [halve_width, not_lt]
      exact hwide.trans hpow
    have hwidth : ∀ n, ((halve holds b).2 - (halve holds b).1) / 2 ^ n =
        (b.2 - b.1) / 2 ^ (n + 1) := by
      intro n
      rw [halve_width, div_div, ← pow_succ']
    rw [← hwidth] at hclose hwide
    obtain ⟨j, hj⟩ := ih (halve_within holds hle).2.1 (show k < fuel by omega) hclose hwide
    refine ⟨first + j, ?_⟩
    rw [search, if_neg hgo, hj, hfirst, hfirst]
    rfl

/-- A monotone predicate fails on the grid up to the lower point and no further. -/
theorem search_highest (hb : Brackets holds b)
    (hmono : ∀ x y, b.1 ≤ x → x ≤ y → holds x = true → holds y = true)
    (hk : k < fuel) (hclose : (b.2 - b.1) / 2 ^ (k + 1) < tol)
    (hwide : tol ≤ (b.2 - b.1) / 2 ^ k) :
    ∃ j, (search holds tol fuel b).1 = grid b (k + 1) j ∧
      ∀ i, holds (grid b (k + 1) i) = false ↔ i ≤ j := by
  obtain ⟨j, hj⟩ := search_grid holds hb.le hk hclose hwide
  have hends := search_brackets tol fuel hb
  rw [hj] at hends
  have hfirst : ∀ i, b.1 ≤ grid b (k + 1) i := by
    intro i
    rw [← grid_zero b (k + 1)]
    exact grid_mono hb.le (k + 1) (Nat.zero_le i)
  refine ⟨j, by rw [hj], fun i => ⟨fun hi => ?_, fun hi => ?_⟩⟩
  · by_contra hgt
    have hover := hmono _ _ (hfirst _) (grid_mono hb.le (k + 1) (show j + 1 ≤ i by omega))
      hends.upper
    rw [hi] at hover
    exact absurd hover (by decide)
  · by_contra hover
    have hlower := hmono _ _ (hfirst _) (grid_mono hb.le (k + 1) hi) (by simpa using hover)
    rw [hends.lower] at hlower
    exact absurd hlower (by decide)

end Bisect
