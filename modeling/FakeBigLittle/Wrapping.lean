import Mathlib.Data.List.Basic

/-!
# Counters that wrap

A total that only grows is seen through a counter modulo `m`, now and then. What the counter
went up by is what the total went up by, as long as that is less than `m` between two looks.
-/

namespace Wrapping

/-- What a counter modulo `m` went up by from `a` to `b`. -/
def increase (m a b : Nat) : Nat := if a ≤ b then b - a else m - a + b

theorem increase_mod {m e e' : Nat} (hle : e ≤ e') (hlt : e' < e + m) :
    increase m (e % m) (e' % m) = e' - e := by
  obtain ⟨d, rfl⟩ := Nat.exists_eq_add_of_le hle
  have hd : d < m := by omega
  have hr : e % m < m := Nat.mod_lt e (by omega)
  unfold increase
  rw [Nat.add_sub_cancel_left, ← Nat.mod_add_mod e m d]
  generalize e % m = r at hr
  by_cases hwrap : r + d < m
  · rw [Nat.mod_eq_of_lt hwrap, if_pos (by omega)]
    omega
  · rw [Nat.mod_eq_sub_mod (by omega), Nat.mod_eq_of_lt (by omega), if_neg (by omega)]
    omega

/-- Looks at a total that was `e`, some of them in vain: it grows by less than `m` from one
look to the next. -/
def Grows (m : Nat) : Nat → List (Option Nat) → Prop
  | _, [] => True
  | e, none :: looks => Grows m e looks
  | e, some e' :: looks => e ≤ e' ∧ e' < e + m ∧ Grows m e' looks

/-- The total at the last look that was not in vain. -/
def lastOf : Nat → List (Option Nat) → Nat
  | e, [] => e
  | e, none :: looks => lastOf e looks
  | _, some e' :: looks => lastOf e' looks

theorem lastOf_append (e : Nat) (looks more : List (Option Nat)) :
    lastOf e (looks ++ more) = lastOf (lastOf e looks) more := by
  induction looks generalizing e with
  | nil => rfl
  | cons look looks ih => cases look <;> exact ih _

theorem grows_append {m e : Nat} {looks more : List (Option Nat)} :
    Grows m e (looks ++ more) ↔ Grows m e looks ∧ Grows m (lastOf e looks) more := by
  induction looks generalizing e with
  | nil => simp [Grows, lastOf]
  | cons look looks ih =>
    cases look with
    | none => exact ih
    | some e' =>
      simp only [List.cons_append, Grows, lastOf, ih]
      tauto

theorem le_lastOf {m e : Nat} {looks : List (Option Nat)} (h : Grows m e looks) :
    e ≤ lastOf e looks := by
  induction looks generalizing e with
  | nil => exact Nat.le_refl e
  | cons look looks ih =>
    cases look with
    | none => exact ih h
    | some e' => exact Nat.le_trans h.1 (ih h.2.2)

end Wrapping
