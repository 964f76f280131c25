import Mathlib.Algebra.Order.Field.Basic
import Mathlib.Order.Monotone.Basic
import Mathlib.Tactic.Linarith

/-!
# Interpolation in a table

A table of points with straight lines between them, clamped at both ends. It is monotone when
the points rise.
-/

namespace Piecewise

variable {K : Type} [Field K] [LinearOrder K]

/-- The point that the table ends with. -/
def lastOf (p : K × K) : List (K × K) → K × K
  | [] => p
  | q :: table => lastOf q table

/-- The line of the first segment around `x`, or else the value at the end. -/
def between (x : K) (p : K × K) : List (K × K) → K
  | [] => p.2
  | q :: table =>
    if p.1 ≤ x ∧ x ≤ q.1 then p.2 + (x - p.1) / (q.1 - p.1) * (q.2 - p.2)
    else between x q table

def interpolate (p : K × K) (table : List (K × K)) (x : K) : K :=
  if x ≤ p.1 then p.2
  else if (lastOf p table).1 ≤ x then (lastOf p table).2
  else between x p table

/-- The points go up from `p` on. -/
def Rising (p : K × K) : List (K × K) → Prop
  | [] => True
  | q :: table => p.1 < q.1 ∧ p.2 ≤ q.2 ∧ Rising q table

variable [IsStrictOrderedRing K] {x y : K} {p : K × K} {table : List (K × K)}

theorem line_mono {q : K × K} (hx : p.1 < q.1) (hy : p.2 ≤ q.2) (h : x ≤ y) :
    p.2 + (x - p.1) / (q.1 - p.1) * (q.2 - p.2) ≤
      p.2 + (y - p.1) / (q.1 - p.1) * (q.2 - p.2) := by
  have hwidth : 0 < q.1 - p.1 := sub_pos.mpr hx
  have hheight : 0 ≤ q.2 - p.2 := sub_nonneg.mpr hy
  gcongr

omit [IsStrictOrderedRing K] in
theorem line_end {q : K × K} (hx : p.1 < q.1) :
    p.2 + (q.1 - p.1) / (q.1 - p.1) * (q.2 - p.2) = q.2 := by
  rw [div_self (sub_ne_zero.mpr hx.ne'), one_mul, add_sub_cancel]

omit [Field K] [IsStrictOrderedRing K] in
theorem lastOf_le (h : Rising p table) : p.1 ≤ (lastOf p table).1 := by
  induction table generalizing p with
  | nil => exact le_refl _
  | cons q table ih => exact h.1.le.trans (ih h.2.2)

theorem le_between (h : Rising p table) (hx : p.1 ≤ x) : p.2 ≤ between x p table := by
  induction table generalizing p with
  | nil => exact le_refl _
  | cons q table ih =>
    obtain ⟨hlt, hle, hrest⟩ := h
    unfold between
    split_ifs with hin
    · have hwidth : 0 < q.1 - p.1 := sub_pos.mpr hlt
      have hstep : 0 ≤ (x - p.1) / (q.1 - p.1) * (q.2 - p.2) :=
        mul_nonneg (div_nonneg (sub_nonneg.mpr hx) hwidth.le) (sub_nonneg.mpr hle)
      linarith
    · have hafter : q.1 ≤ x := by
        by_contra hbefore
        exact hin ⟨hx, (not_le.mp hbefore).le⟩
      exact hle.trans (ih hrest hafter)

theorem between_mono (h : Rising p table) (hx : p.1 ≤ x) (hxy : x ≤ y) :
    between x p table ≤ between y p table := by
  induction table generalizing p with
  | nil => exact le_refl _
  | cons q table ih =>
    obtain ⟨hlt, hle, hrest⟩ := h
    unfold between
    by_cases hxq : x ≤ q.1
    · rw [if_pos ⟨hx, hxq⟩]
      by_cases hyq : y ≤ q.1
      · rw [if_pos ⟨hx.trans hxy, hyq⟩]
        exact line_mono hlt hle hxy
      · rw [if_neg fun hin => hyq hin.2]
        calc p.2 + (x - p.1) / (q.1 - p.1) * (q.2 - p.2)
            ≤ p.2 + (q.1 - p.1) / (q.1 - p.1) * (q.2 - p.2) := line_mono hlt hle hxq
          _ = q.2 := line_end hlt
          _ ≤ between y q table := le_between hrest (not_le.mp hyq).le
    · have hafter : q.1 ≤ x := (not_le.mp hxq).le
      rw [if_neg fun hin => hxq hin.2, if_neg fun hin => hxq (hxy.trans hin.2)]
      exact ih hrest hafter

omit [IsStrictOrderedRing K] in
theorem between_of_last_le (h : Rising p table) (hx : (lastOf p table).1 ≤ x) :
    between x p table = (lastOf p table).2 := by
  induction table generalizing p with
  | nil => rfl
  | cons q table ih =>
    obtain ⟨hlt, -, hrest⟩ := h
    have hlast : (lastOf q table).1 ≤ x := hx
    unfold between
    split_ifs with hin
    · have hq : q.1 = x := le_antisymm ((lastOf_le hrest).trans hlast) hin.2
      cases table with
      | nil =>
        rw [← hq, line_end hlt]
        rfl
      | cons r table =>
        have := (lastOf_le hrest.2.2).trans hlast
        exact absurd hrest.1 (by rw [hq]; exact not_lt.mpr this)
    · exact ih hrest hlast

omit [IsStrictOrderedRing K] in
theorem interpolate_eq (h : Rising p table) :
    interpolate p table x = if x ≤ p.1 then p.2 else between x p table := by
  unfold interpolate
  split_ifs with hfirst hlast
  · rfl
  · exact (between_of_last_le h hlast).symm
  · rfl

theorem le_interpolate (h : Rising p table) (x : K) : p.2 ≤ interpolate p table x := by
  rw [interpolate_eq h]
  split_ifs with hx
  · exact le_refl _
  · exact le_between h (not_le.mp hx).le

theorem interpolate_monotone (h : Rising p table) : Monotone (interpolate p table) := by
  intro x y hxy
  rw [interpolate_eq h, interpolate_eq h]
  split_ifs with hx hy hy
  · exact le_refl _
  · exact le_between h (not_le.mp hy).le
  · exact absurd (hxy.trans hy) hx
  · exact between_mono h (not_le.mp hx).le hxy

end Piecewise
