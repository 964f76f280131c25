import Mathlib.Data.List.Nodup
import Mathlib.Data.List.Perm.Basic

/-!
# Items kept in places

A family of lists `q` keeps items in places. `Holds q w` says that a map from items to
places describes the family completely: every item is in the place that the map gives,
once, and nowhere else. Whether an item is lost or doubled is then a question about a map.
-/

namespace Slots

variable {ι α : Type*}

/-- `q` lists at each place exactly the items that `w` puts there, each of them once. -/
def Holds (q : ι → List α) (w : α → Option ι) : Prop :=
  (∀ i, (q i).Nodup) ∧ ∀ i a, a ∈ q i ↔ w a = some i

theorem Holds.nodup {q : ι → List α} {w : α → Option ι} (h : Holds q w) (i : ι) :
    (q i).Nodup := h.1 i

theorem Holds.mem_iff {q : ι → List α} {w : α → Option ι} (h : Holds q w) {i : ι} {a : α} :
    a ∈ q i ↔ w a = some i := h.2 i a

theorem Holds.empty : Holds (fun _ : ι => ([] : List α)) fun _ => none :=
  ⟨fun _ => List.nodup_nil, fun _ _ => by simp⟩

/-- An item is in one place at most. -/
theorem Holds.place_eq {q : ι → List α} {w : α → Option ι} (h : Holds q w) {i j : ι} {a : α}
    (hi : a ∈ q i) (hj : a ∈ q j) : i = j := by
  have hw := h.mem_iff.mp hi
  rw [h.mem_iff.mp hj, Option.some.injEq] at hw
  exact hw.symm

/-- An item that is somewhere is in one slot: one place, and one position there. -/
theorem Holds.existsUnique_slot {q : ι → List α} {w : α → Option ι} (h : Holds q w) {a : α}
    (ha : (w a).isSome) : ∃! slot : ι × Nat, (q slot.1)[slot.2]? = some a := by
  obtain ⟨i, hi⟩ := Option.isSome_iff_exists.mp ha
  obtain ⟨k, hk⟩ := List.mem_iff_getElem?.mp (h.mem_iff.mpr hi)
  refine ⟨(i, k), hk, ?_⟩
  rintro ⟨j, l⟩ hjl
  have hj : j = i := h.place_eq (List.mem_of_getElem? hjl) (h.mem_iff.mpr hi)
  subst hj
  obtain ⟨hk', hka⟩ := List.getElem?_eq_some_iff.mp hk
  obtain ⟨hl', hla⟩ := List.getElem?_eq_some_iff.mp hjl
  have hlk : l = k := ((h.nodup j).getElem_inj_iff).mp (hla.trans hka.symm)
  rw [hlk]

variable [DecidableEq α]

/-- Putting an item that is nowhere into place `i`. -/
theorem Holds.add {q q' : ι → List α} {w : α → Option ι} (h : Holds q w) {i : ι} {a : α}
    (ha : w a = none) (hi : (q' i).Perm (a :: q i)) (hne : ∀ j, j ≠ i → q' j = q j) :
    Holds q' (Function.update w a (some i)) := by
  have hnot : ∀ j, a ∉ q j := fun j hj => by
    rw [h.mem_iff, ha] at hj
    exact absurd hj (by simp)
  constructor
  · intro j
    by_cases hj : j = i
    · subst hj
      exact hi.nodup_iff.mpr (List.nodup_cons.mpr ⟨hnot j, h.nodup j⟩)
    · rw [hne j hj]
      exact h.nodup j
  · intro j b
    by_cases hj : j = i
    · subst hj
      rw [hi.mem_iff, List.mem_cons, h.mem_iff]
      by_cases hb : b = a
      · simp [hb]
      · simp [hb]
    · rw [hne j hj]
      by_cases hb : b = a
      · subst hb
        simp [hnot j, Ne.symm hj]
      · simp [h.mem_iff, hb]

/-- Taking an item out of its place. -/
theorem Holds.remove {q q' : ι → List α} {w : α → Option ι} (h : Holds q w) {i : ι} {a : α}
    (hi : (q i).Perm (a :: q' i)) (hne : ∀ j, j ≠ i → q' j = q j) :
    Holds q' (Function.update w a none) := by
  have hnd := hi.nodup_iff.mp (h.nodup i)
  have hmem : a ∈ q i := hi.mem_iff.mpr List.mem_cons_self
  constructor
  · intro j
    by_cases hj : j = i
    · subst hj
      exact (List.nodup_cons.mp hnd).2
    · rw [hne j hj]
      exact h.nodup j
  · intro j b
    by_cases hb : b = a
    · subst hb
      have hnot : b ∉ q' j := by
        by_cases hj : j = i
        · subst hj
          exact (List.nodup_cons.mp hnd).1
        · rw [hne j hj]
          exact fun hbj => hj (h.place_eq hbj hmem)
      simp [hnot]
    · by_cases hj : j = i
      · subst hj
        have := hi.mem_iff (a := b)
        rw [List.mem_cons] at this
        simp only [hb, false_or] at this
        rw [← this, h.mem_iff]
        simp [hb]
      · rw [hne j hj, h.mem_iff]
        simp [hb]

/-- Moving an item from place `i` to place `j`. -/
theorem Holds.move {q q' : ι → List α} {w : α → Option ι} (h : Holds q w) {i j : ι} {a : α}
    (hij : i ≠ j) (hi : (q i).Perm (a :: q' i)) (hj : (q' j).Perm (a :: q j))
    (hne : ∀ k, k ≠ i → k ≠ j → q' k = q k) :
    Holds q' (Function.update w a (some j)) := by
  classical
  have hout : Holds (Function.update q i (q' i)) (Function.update w a none) := by
    refine h.remove (i := i) ?_ fun k hk => Function.update_of_ne hk _ _
    rwa [Function.update_self]
  have hin : Holds q' (Function.update (Function.update w a none) a (some j)) := by
    refine hout.add (i := j) (Function.update_self ..) ?_ fun k hk => ?_
    · rwa [Function.update_of_ne hij.symm]
    · by_cases hki : k = i
      · rw [hki, Function.update_self]
      · rw [Function.update_of_ne hki, hne k hki hk]
  rwa [Function.update_idem] at hin

end Slots
