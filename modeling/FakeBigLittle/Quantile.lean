import Mathlib.Algebra.Order.Field.Basic
import Mathlib.Algebra.Order.Floor.Ring
import Mathlib.Data.List.GetD
import Mathlib.Data.List.Pairwise
import Mathlib.Tactic.Linarith

/-!
# Quantiles of a sorted list

The values of a list with straight lines between them. In an ascending list this is between the
ends, and monotone in the position, across the values as well.
-/

namespace Quantile

variable {K : Type} [Field K] [LinearOrder K] [FloorRing K]

/-- The index of the value at or before position `x`. -/
def cell (x : K) : Nat := ⌊x⌋.toNat

/-- The value at position `x`, counted from 0. -/
def value (s : List K) (x : K) : K :=
  s.getD (cell x) 0 +
    (x - cell x) * (s.getD (min (cell x + 1) (s.length - 1)) 0 - s.getD (cell x) 0)

/-! ## Cells -/

section Cells

variable {x y : K}

theorem cell_le (hx : 0 ≤ x) : (cell x : K) ≤ x := by
  have hfloor : ((⌊x⌋.toNat : ℤ) : K) = (⌊x⌋ : K) := by
    rw [Int.toNat_of_nonneg (Int.floor_nonneg.mpr hx)]
  unfold cell
  calc ((⌊x⌋.toNat : Nat) : K) = (⌊x⌋ : K) := by exact_mod_cast hfloor
    _ ≤ x := Int.floor_le x

theorem cell_mono (hxy : x ≤ y) : cell x ≤ cell y := by
  unfold cell
  exact Int.toNat_le_toNat (Int.floor_mono hxy)

variable [IsStrictOrderedRing K]

theorem lt_cell_succ (x : K) : x < cell x + 1 := by
  have hle : (⌊x⌋ : K) ≤ (cell x : K) := by exact_mod_cast Int.self_le_toNat ⌊x⌋
  linarith [Int.lt_floor_add_one x]

theorem cell_lt {n : Nat} (hx : 0 ≤ x) (hlt : x < n) : cell x < n := by
  have hcell := cell_le hx
  exact_mod_cast hcell.trans_lt hlt

end Cells

/-! ## Ascending lists -/

section Ascending

variable {s : List K} {x y : K}

omit [FloorRing K] in
theorem getD_mono (h : s.Pairwise (· ≤ ·)) {i j : Nat} (hij : i ≤ j) (hj : j < s.length) :
    s.getD i 0 ≤ s.getD j 0 := by
  rw [List.getD_eq_getElem _ _ hj, List.getD_eq_getElem _ _ (hij.trans_lt hj)]
  rcases hij.eq_or_lt with rfl | hlt
  · exact le_refl _
  · exact List.pairwise_iff_getElem.mp h i j _ hj hlt

variable [IsStrictOrderedRing K]

/-- It is between the two values around the position. -/
theorem value_between (h : s.Pairwise (· ≤ ·)) (hx : 0 ≤ x) (hlast : cell x < s.length) :
    s.getD (cell x) 0 ≤ value s x ∧
      value s x ≤ s.getD (min (cell x + 1) (s.length - 1)) 0 := by
  have hstep : s.getD (cell x) 0 ≤ s.getD (min (cell x + 1) (s.length - 1)) 0 :=
    getD_mono h (by omega) (by omega)
  have hlow : 0 ≤ x - cell x := sub_nonneg.mpr (cell_le hx)
  have hhigh : x - cell x ≤ 1 := by linarith [lt_cell_succ x]
  have hrise := sub_nonneg.mpr hstep
  unfold value
  constructor
  · linarith [mul_nonneg hlow hrise]
  · linarith [mul_le_mul_of_nonneg_right hhigh hrise]

/-- **The value rises with the position.** -/
theorem value_mono (h : s.Pairwise (· ≤ ·)) (hx : 0 ≤ x) (hxy : x ≤ y)
    (hlast : cell y < s.length) : value s x ≤ value s y := by
  have hy := hx.trans hxy
  rcases (cell_mono hxy).eq_or_lt with hsame | hlt
  · -- the same line
    have hrise : 0 ≤ s.getD (min (cell y + 1) (s.length - 1)) 0 - s.getD (cell y) 0 :=
      sub_nonneg.mpr (getD_mono h (by omega) (by omega))
    unfold value
    rw [hsame]
    gcongr
  · -- a value of the list is between them
    calc value s x ≤ s.getD (min (cell x + 1) (s.length - 1)) 0 :=
          (value_between h hx (hlt.trans hlast)).2
      _ ≤ s.getD (cell y) 0 := getD_mono h (by omega) hlast
      _ ≤ value s y := (value_between h hy hlast).1

theorem value_bounds (h : s.Pairwise (· ≤ ·)) (hx : 0 ≤ x) (hlast : cell x < s.length) :
    s.getD 0 0 ≤ value s x ∧ value s x ≤ s.getD (s.length - 1) 0 := by
  obtain ⟨hlow, hhigh⟩ := value_between h hx hlast
  constructor
  · exact (getD_mono h (Nat.zero_le _) hlast).trans hlow
  · exact hhigh.trans (getD_mono h (min_le_right _ _) (by omega))

end Ascending

end Quantile
