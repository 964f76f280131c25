import Mathlib.Data.List.Basic
import Mathlib.Data.List.Perm.Basic

/-!
# Serving a queue out of order

A server that cannot take every item takes the first one that it can: `find?` is what it
takes and `eraseP` what it leaves. What matters to an item that waits is how many items
are ahead of it.
-/

namespace Fifo

variable {α β : Type*}

/-- The queue around the first item that `p` accepts. -/
theorem split_of_find? {p : α → Bool} {l : List α} {a : α} (h : l.find? p = some a) :
    ∃ l₁ l₂, l = l₁ ++ a :: l₂ ∧ l.eraseP p = l₁ ++ l₂ ∧ p a = true ∧
      ∀ b ∈ l₁, p b = false := by
  obtain ⟨hpa, l₁, l₂, rfl, hl₁⟩ := List.find?_eq_some_iff_append.mp h
  have hl₁' : ∀ b ∈ l₁, p b = false := fun b hb => by simpa using hl₁ b hb
  refine ⟨l₁, l₂, rfl, ?_, hpa, hl₁'⟩
  rw [List.eraseP_append_right _ (fun b hb => by simp [hl₁' b hb]), List.eraseP_cons_of_pos hpa]

theorem perm_eraseP {p : α → Bool} {l : List α} {a : α} (h : l.find? p = some a) :
    l.Perm (a :: l.eraseP p) := by
  obtain ⟨l₁, l₂, hl, herase, -, -⟩ := split_of_find? h
  rw [herase, hl]
  exact List.perm_middle

/-- What was taken from a queue without duplicates is not on it any more. -/
theorem notMem_map_eraseP {f : α → β} {p : α → Bool} {l : List α} {a : α}
    (hnd : (l.map f).Nodup) (h : l.find? p = some a) : f a ∉ (l.eraseP p).map f := by
  have hperm := (perm_eraseP h).map f
  exact (List.nodup_cons.mp (hperm.nodup_iff.mp hnd)).1

theorem find?_of_mem_map [DecidableEq β] {f : α → β} {l : List α} {b : β}
    (h : b ∈ l.map f) : ∃ a, (l.find? fun a => f a = b) = some a ∧ f a = b := by
  obtain ⟨a, ha, hfa⟩ := List.mem_map.mp h
  have hsome : (l.find? fun a => decide (f a = b)).isSome := by
    rw [List.find?_isSome]
    exact ⟨a, ha, by simpa using hfa⟩
  obtain ⟨c, hc⟩ := Option.isSome_iff_exists.mp hsome
  exact ⟨c, hc, by simpa using List.find?_some hc⟩

/-! ## Items ahead -/

variable [DecidableEq β]

/-- How many items of `l` are ahead of the one that `f` calls `b`. -/
def ahead (f : α → β) (b : β) (l : List α) : Nat := (l.map f).idxOf b

theorem ahead_append (f : α → β) (b : β) (l l' : List α) (h : b ∈ l.map f) :
    ahead f b (l ++ l') = ahead f b l := by
  unfold ahead
  rw [List.map_append, List.idxOf_append_of_mem h]

theorem ahead_middle_of_mem (f : α → β) (b : β) (l₁ l₂ : List α) (a : α)
    (h : b ∈ l₁.map f) : ahead f b (l₁ ++ a :: l₂) = ahead f b (l₁ ++ l₂) := by
  rw [ahead_append _ _ _ _ h, ahead_append _ _ _ _ h]

theorem ahead_middle (f : α → β) (b : β) (l₁ l₂ : List α) (a : α) (h : b ∉ l₁.map f)
    (ha : f a ≠ b) : ahead f b (l₁ ++ a :: l₂) = ahead f b (l₁ ++ l₂) + 1 := by
  unfold ahead
  rw [List.map_append, List.map_append, List.map_cons, List.idxOf_append_of_notMem h,
    List.idxOf_append_of_notMem h, List.idxOf_cons_ne _ ha]
  omega

/-- Whoever else leaves the queue, nobody falls back. -/
theorem ahead_eraseP_le (f : α → β) (b : β) (p : α → Bool) (l : List α)
    (hne : ∀ a, l.find? p = some a → f a ≠ b) : ahead f b (l.eraseP p) ≤ ahead f b l := by
  cases hfind : l.find? p with
  | none =>
    exact Nat.le_of_eq (by rw [List.eraseP_of_forall_not (List.find?_eq_none.mp hfind)])
  | some a =>
    obtain ⟨l₁, l₂, hl, herase, -, -⟩ := split_of_find? hfind
    rw [herase, hl]
    by_cases hb : b ∈ l₁.map f
    · exact Nat.le_of_eq (ahead_middle_of_mem _ _ _ _ _ hb).symm
    · rw [ahead_middle _ _ _ _ _ hb (hne a hfind)]
      omega

/-- A server that could take `b` and takes something else brings `b` forward. -/
theorem ahead_served (f : α → β) (b : β) (p : α → Bool) (l : List α) (a : α)
    (hfind : l.find? p = some a) (ha : f a ≠ b) (hb : ∀ c ∈ l, f c = b → p c = true) :
    ahead f b (l.eraseP p) + 1 = ahead f b l := by
  obtain ⟨l₁, l₂, hl, herase, -, hl₁⟩ := split_of_find? hfind
  have hnot : b ∉ l₁.map f := by
    intro hmem
    obtain ⟨c, hc, hfc⟩ := List.mem_map.mp hmem
    have hpc := hb c (by rw [hl]; exact List.mem_append_left _ hc) hfc
    rw [hl₁ c hc] at hpc
    exact absurd hpc (by simp)
  rw [herase, hl, ahead_middle _ _ _ _ _ hnot ha]

end Fifo
