import Mathlib.Algebra.BigOperators.Group.List.Basic
import Mathlib.Algebra.CharZero.Defs
import Mathlib.Algebra.Order.BigOperators.Group.List
import Mathlib.Data.List.Lattice
import Mathlib.Order.Lattice
import Mathlib.Tactic.LinearCombination

/-!
# Means over what was seen

Some of many values are seen. A total that counts something in place of the others is divided
by how many there are, seen or not.
-/

namespace Means

variable {ι K : Type*}

/-- The mean, if there is anything to take it of. -/
def mean [DivisionRing K] : List K → Option K
  | [] => none
  | v :: vs => some ((v :: vs).sum / ((v :: vs).length : K))

def unseen (seen : ι → Option K) (xs : List ι) : List ι := xs.filter fun x => (seen x).isNone

/-- Something is seen, and what is counted for the rest is, on average, the mean of it. -/
structure Unspoiled [DivisionRing K] (seen : ι → Option K) (counted : ι → K) (xs : List ι) :
    Prop where
  some_seen : ∃ x ∈ xs, seen x ≠ none
  rest : ((unseen seen xs).map counted).sum * (xs.filterMap seen).length =
    (xs.filterMap seen).sum * (unseen seen xs).length

theorem filterMap_eq_nil (seen : ι → Option K) (xs : List ι) :
    xs.filterMap seen = [] ↔ ¬∃ x ∈ xs, seen x ≠ none := by
  simp [List.filterMap_eq_nil_iff]

theorem unseen_eq_nil (seen : ι → Option K) (xs : List ι) :
    unseen seen xs = [] ↔ ∀ x ∈ xs, seen x ≠ none := by
  simp [unseen, List.filter_eq_nil_iff]

theorem length_eq (seen : ι → Option K) (xs : List ι) :
    xs.length = (xs.filterMap seen).length + (unseen seen xs).length := by
  induction xs with
  | nil => rfl
  | cons x xs ih =>
    cases hx : seen x <;> simp_all [unseen] <;> omega

section Field

variable [Field K] {seen : ι → Option K} {counted : ι → K} {xs : List ι}

theorem sum_eq (h : ∀ x ∈ xs, ∀ v, seen x = some v → counted x = v) :
    (xs.map counted).sum = (xs.filterMap seen).sum + ((unseen seen xs).map counted).sum := by
  induction xs with
  | nil => simp [unseen]
  | cons x xs ih =>
    rw [List.forall_mem_cons] at h
    have hrest := ih h.2
    cases hx : seen x with
    | none =>
      simp only [unseen, List.map_cons, List.sum_cons, List.filterMap_cons, List.filter_cons, hx,
        Option.isNone_none, if_true] at hrest ⊢
      rw [hrest, add_left_comm]
    | some v =>
      simp only [unseen, List.map_cons, List.sum_cons, List.filterMap_cons, List.filter_cons, hx,
        Option.isNone_some, Bool.false_eq_true, if_false, h.1 v hx] at hrest ⊢
      rw [hrest, add_assoc]

/-- The total over all is the mean over the seen exactly when nothing spoils it. -/
theorem mean_eq_iff [CharZero K] (hne : xs ≠ [])
    (h : ∀ x ∈ xs, ∀ v, seen x = some v → counted x = v) :
    some ((xs.map counted).sum / (xs.length : K)) = mean (xs.filterMap seen) ↔
      Unspoiled seen counted xs := by
  have hlen := length_eq seen xs
  have hxs : (xs.length : K) ≠ 0 := by simpa using hne
  rw [sum_eq h]
  cases hvs : xs.filterMap seen with
  | nil =>
    have hnone := (filterMap_eq_nil seen xs).mp hvs
    exact iff_of_false (by simp [mean]) fun hun => hnone hun.some_seen
  | cons v vs =>
    have hseen : ∃ x ∈ xs, seen x ≠ none := by
      by_contra hnone
      simp [(filterMap_eq_nil seen xs).mpr hnone] at hvs
    have hvs' : ((v :: vs).length : K) ≠ 0 := Nat.cast_ne_zero.mpr (by simp)
    rw [hvs] at hlen
    rw [hlen, Nat.cast_add] at hxs ⊢
    rw [mean, Option.some.injEq, div_eq_div_iff hxs hvs']
    constructor
    · intro heq
      refine ⟨hseen, ?_⟩
      rw [hvs]
      linear_combination heq
    · rintro ⟨-, hrest⟩
      rw [hvs] at hrest
      linear_combination hrest

theorem unspoiled_of_all (hne : xs ≠ []) (h : ∀ x ∈ xs, seen x ≠ none) :
    Unspoiled seen counted xs := by
  obtain ⟨x, hx⟩ := List.exists_mem_of_ne_nil xs hne
  refine ⟨⟨x, hx, h x hx⟩, ?_⟩
  simp [(unseen_eq_nil seen xs).mpr h]

/-- Zeros spoil a mean unless it is zero itself. -/
theorem unspoiled_iff_of_zero [CharZero K] (h : ∀ x ∈ xs, seen x = none → counted x = 0) :
    Unspoiled seen counted xs ↔ (∃ x ∈ xs, seen x ≠ none) ∧
      ((∀ x ∈ xs, seen x ≠ none) ∨ (xs.filterMap seen).sum = 0) := by
  have hzero : ((unseen seen xs).map counted).sum = 0 := by
    apply List.sum_eq_zero
    intro v hv
    obtain ⟨x, hx, rfl⟩ := List.mem_map.mp hv
    obtain ⟨hmem, hnone⟩ := List.mem_filter.mp hx
    exact h x hmem (Option.isNone_iff_eq_none.mp hnone)
  have hrest : ((unseen seen xs).map counted).sum * (xs.filterMap seen).length =
      (xs.filterMap seen).sum * (unseen seen xs).length ↔
        (∀ x ∈ xs, seen x ≠ none) ∨ (xs.filterMap seen).sum = 0 := by
    rw [hzero, zero_mul, zero_eq_mul, Nat.cast_eq_zero, List.length_eq_zero_iff, unseen_eq_nil,
      or_comm]
  rw [← hrest]
  exact ⟨fun hun => ⟨hun.some_seen, hun.rest⟩, fun hun => ⟨hun.1, hun.2⟩⟩

end Field

/-- Values that are not negative add up to zero only if they are zero. -/
theorem sum_eq_zero_iff [AddCommMonoid K] [PartialOrder K] [IsOrderedAddMonoid K]
    {seen : ι → Option K} {xs : List ι} (h : ∀ x ∈ xs, ∀ v, seen x = some v → 0 ≤ v) :
    (xs.filterMap seen).sum = 0 ↔ ∀ x ∈ xs, ∀ v, seen x = some v → v = 0 := by
  constructor
  · intro hsum x hx v hv
    refine List.all_zero_of_le_zero_le_of_sum_eq_zero (fun u hu => ?_) hsum
      (List.mem_filterMap.mpr ⟨x, hx, hv⟩)
    obtain ⟨y, hy, hyu⟩ := List.mem_filterMap.mp hu
    exact h y hy u hyu
  · intro hzero
    apply List.sum_eq_zero
    intro u hu
    obtain ⟨y, hy, hyu⟩ := List.mem_filterMap.mp hu
    exact hzero y hy u hyu

section Max

variable [LinearOrder K] {b : K} {vs : List K}

theorem max_of_le (h : ∀ v ∈ vs, b ≤ v) : some (vs.foldl max b) = vs.max? ↔ vs ≠ [] := by
  cases vs with
  | nil => simp
  | cons v vs =>
    rw [List.forall_mem_cons] at h
    rw [List.foldl_cons, max_eq_right h.1, List.max?_cons']
    simp

end Max

end Means
