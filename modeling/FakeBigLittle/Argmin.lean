import Mathlib.Algebra.Order.Field.Basic
import Mathlib.Data.List.MinMax
import Mathlib.Tactic.Linarith

/-!
# The first minimum of a curve

A curve is sampled at points in ascending order, and `argmin` takes the first of its lowest
samples. A cost that falls along the points moves the minimum up.
-/

namespace Argmin

variable {ι α β K : Type} [LinearOrder ι] [Field K] [LinearOrder K] [IsStrictOrderedRing K]
  {points : List ι}

omit [Field K] [IsStrictOrderedRing K] in
/-- Every sample before the first minimum is higher. -/
theorem first_of_argmin {p : ι → α} {cost : α → K} (hsorted : points.Pairwise (· < ·)) {m : α}
    (h : (points.map p).argmin cost = some m) :
    ∃ i ∈ points, m = p i ∧ (∀ j ∈ points, cost (p i) ≤ cost (p j)) ∧
      ∀ j ∈ points, j < i → cost (p i) < cost (p j) := by
  induction points generalizing m with
  | nil => simp at h
  | cons first points ih =>
    obtain ⟨hfirst, hsorted⟩ := List.pairwise_cons.mp hsorted
    rw [List.map_cons, List.argmin_cons] at h
    cases hrest : (points.map p).argmin cost with
    | none =>
      rw [hrest] at h
      obtain rfl := Option.some.inj h
      obtain rfl := List.map_eq_nil_iff.mp (List.argmin_eq_none.mp hrest)
      exact ⟨first, List.mem_cons_self, rfl, by simp, by simp⟩
    | some c =>
      obtain ⟨i, hi, rfl, hlow, hbefore⟩ := ih hsorted hrest
      rw [hrest] at h
      simp only at h
      split_ifs at h with hlt
      · obtain rfl := Option.some.inj h
        refine ⟨i, List.mem_cons_of_mem _ hi, rfl, ?_, ?_⟩
        · exact List.forall_mem_cons.mpr ⟨hlt.le, hlow⟩
        · exact List.forall_mem_cons.mpr ⟨fun _ => hlt, hbefore⟩
      · obtain rfl := Option.some.inj h
        refine ⟨first, List.mem_cons_self, rfl, ?_, ?_⟩
        · refine List.forall_mem_cons.mpr ⟨le_refl _, fun j hj => ?_⟩
          exact (not_lt.mp hlt).trans (hlow j hj)
        · refine List.forall_mem_cons.mpr ⟨fun hlt => absurd hlt (lt_irrefl _), fun j hj hlt => ?_⟩
          exact absurd hlt (not_lt.mpr (hfirst j hj).le)

/-- What the second cost is above the first falls, so its minimum comes no earlier. -/
theorem argmin_le_argmin {p : ι → α} {q : ι → β} {cost : α → K} {cost' : β → K}
    (hsorted : points.Pairwise (· < ·))
    (hfalls : ∀ i ∈ points, ∀ j ∈ points, i < j →
      cost' (q j) - cost (p j) ≤ cost' (q i) - cost (p i))
    {m : α} {m' : β} (h : (points.map p).argmin cost = some m)
    (h' : (points.map q).argmin cost' = some m') :
    ∃ i ∈ points, ∃ j ∈ points, m = p i ∧ m' = q j ∧ i ≤ j := by
  obtain ⟨i, hi, rfl, -, hbefore⟩ := first_of_argmin hsorted h
  obtain ⟨j, hj, rfl, hlow, -⟩ := first_of_argmin hsorted h'
  refine ⟨i, hi, j, hj, rfl, rfl, not_lt.mp fun hlt => ?_⟩
  have hhigher := hbefore j hj hlt
  have hlowest := hlow i hi
  have hdrop := hfalls j hj i hi hlt
  linarith

end Argmin
