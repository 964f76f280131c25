import FakeBigLittle.Energy.Spec
import FakeBigLittle.Wrapping

/-!
# Unwrapping a RAPL counter

The joules that `rapl_delta_j` adds up are those that the domain used, whatever wraps and
whatever fails to read.
-/

namespace FakeBigLittle

open CString Wrapping

namespace Energy

/-! ## One call -/

theorem unwrap_toNat {d : RaplDom} {v : UInt64} (hv : v < d.maxRangeUj)
    (hlast : d.lastUj < d.maxRangeUj) :
    (d.unwrap v).toNat = increase d.maxRangeUj.toNat d.lastUj.toNat v.toNat := by
  have hbound := d.maxRangeUj.toNat_lt
  rw [UInt64.lt_iff_toNat_lt] at hv hlast
  unfold RaplDom.unwrap increase
  by_cases hle : d.lastUj ≤ v
  · rw [if_pos hle, if_pos (UInt64.le_iff_toNat_le.mp hle), UInt64.toNat_sub_of_le _ _ hle]
  · have hrange : d.maxRangeUj ≠ 0 := by
      rintro hzero
      rw [hzero] at hv
      exact absurd hv (Nat.not_lt_zero _)
    have hlt : v.toNat < d.lastUj.toNat := by
      rw [UInt64.le_iff_toNat_le] at hle
      omega
    rw [if_neg hle, if_pos hrange, if_neg (by omega), UInt64.toNat_add,
      UInt64.toNat_sub_of_le _ _ (UInt64.le_iff_toNat_le.mpr (by omega))]
    exact Nat.mod_eq_of_lt (by omega)

/-- What the `energy_uj` file shows of a total of `e`. -/
def counterAt (m : UInt64) (e : Nat) : UInt64 := UInt64.ofNat (e % m.toNat)

theorem counterAt_toNat {m : UInt64} (hm : 0 < m) (e : Nat) :
    (counterAt m e).toNat = e % m.toNat := by
  have hlt := Nat.mod_lt e (UInt64.lt_iff_toNat_lt.mp hm)
  have hbound := m.toNat_lt
  unfold counterAt
  rw [UInt64.toNat_ofNat']
  exact Nat.mod_eq_of_lt (by omega)

theorem counterAt_lt {m : UInt64} (hm : 0 < m) (e : Nat) : counterAt m e < m := by
  rw [UInt64.lt_iff_toNat_lt, counterAt_toNat hm]
  exact Nat.mod_lt e (UInt64.lt_iff_toNat_lt.mp hm)

/-- The domain is there, its range is `m`, and the last look at it saw a total of `e`. -/
structure Saw (m : UInt64) (e : Nat) (d : RaplDom) : Prop where
  present : d.present = true
  range : d.maxRangeUj = m
  last : d.lastUj = counterAt m e

-- joules of a number of microjoules
def joules (uj : Nat) : ℚ := uj / microJ

theorem raplDeltaJ_some {m : UInt64} (hm : 0 < m) {e e' : Nat} {d : RaplDom} (h : Saw m e d)
    (hle : e ≤ e') (hlt : e' < e + m.toNat) :
    raplDeltaJ d (some (counterAt m e')) =
      ({ d with lastUj := counterAt m e', totalJ := d.totalJ + joules (e' - e) },
        some (joules (e' - e))) := by
  have hdelta : (d.unwrap (counterAt m e')).toNat = e' - e := by
    rw [unwrap_toNat (by rw [h.range]; exact counterAt_lt hm e')
      (by rw [h.range, h.last]; exact counterAt_lt hm e)]
    rw [h.range, h.last, counterAt_toNat hm, counterAt_toNat hm]
    exact increase_mod hle hlt
  unfold raplDeltaJ
  rw [h.present]
  simp only [hdelta, joules]

theorem raplDeltaJ_none (d : RaplDom) : raplDeltaJ d none = (d, none) := by
  unfold raplDeltaJ
  cases d.present <;> rfl

theorem joules_add (a b : Nat) : joules a + joules b = joules (a + b) := by
  unfold joules
  rw [← add_div, Nat.cast_add]

/-! ## Any calls -/

/-- The domain behind a sequence of calls, and what they return. -/
def calls (d : RaplDom) : List (Option UInt64) → RaplDom × List Double
  | [] => (d, [])
  | read :: reads =>
    let (d, j) := raplDeltaJ d read
    let (d, js) := calls d reads
    (d, j :: js)

-- What looks at a total read.
def shown (m : UInt64) (looks : List (Option Nat)) : List (Option UInt64) :=
  looks.map (Option.map (counterAt m))

-- The sum of what is not NaN.
def sumOf (js : List Double) : ℚ := (js.filterMap id).sum

theorem calls_total {m : UInt64} (hm : 0 < m) {e : Nat} {d : RaplDom} (h : Saw m e d)
    {looks : List (Option Nat)} (hgrows : Grows m.toNat e looks) :
    Saw m (lastOf e looks) (calls d (shown m looks)).1 ∧
      (calls d (shown m looks)).1.totalJ = d.totalJ + joules (lastOf e looks - e) ∧
      sumOf (calls d (shown m looks)).2 = joules (lastOf e looks - e) := by
  induction looks generalizing e d with
  | nil => simp [calls, shown, lastOf, sumOf, joules, h]
  | cons look looks ih =>
    cases look with
    | none =>
      have hcons : calls d (shown m (none :: looks)) =
          ((calls d (shown m looks)).1, none :: (calls d (shown m looks)).2) := by
        simp only [shown, List.map_cons, Option.map_none, calls, raplDeltaJ_none]
      rw [hcons]
      exact ih h hgrows
    | some e' =>
      obtain ⟨hle, hlt, hrest⟩ := hgrows
      have hsaw : Saw m e' { d with
          lastUj := counterAt m e', totalJ := d.totalJ + joules (e' - e) } :=
        ⟨h.present, h.range, rfl⟩
      obtain ⟨hend, htotal, hsum⟩ := ih hsaw hrest
      have hgrown := le_lastOf hrest
      have hlast : lastOf e (some e' :: looks) = lastOf e' looks := rfl
      have hsplit : joules (lastOf e' looks - e) =
          joules (e' - e) + joules (lastOf e' looks - e') := by
        rw [joules_add]
        congr 1
        omega
      simp only [shown, List.map_cons, Option.map_some, calls, raplDeltaJ_some hm h hle hlt]
      rw [hlast, hsplit]
      refine ⟨hend, ?_, ?_⟩
      · rw [← add_assoc]
        exact htotal
      · unfold sumOf at hsum ⊢
        rw [List.filterMap_cons_some (by rfl), List.sum_cons, ← hsum]
        rfl

theorem saw_addRapl {rapl : List RaplDom} {name : Text} {m : UInt64} {e : Nat} {denied : Bool}
    {d : RaplDom}
    (h : addRapl rapl ⟨some name, some m, some (counterAt m e), denied⟩ = some (rapl ++ [d])) :
    Saw m e d := by
  unfold addRapl at h
  by_cases hfull : rapl.length ≥ maxRapl
  · simp [if_pos hfull] at h
  · simp only [if_neg hfull, Option.some.injEq, List.append_cancel_left_eq,
      List.cons.injEq, and_true] at h
    obtain rfl := h
    exact ⟨rfl, rfl, rfl⟩

/-- **Unwrapping loses and invents nothing.** Behind the reset, `total_j` is what the domain
used between the last good read before it and the last one now, and it is the sum of what
the calls have returned. -/
theorem rapl_total (rapl : List RaplDom) (name : Text) (m : UInt64) (hm : 0 < m) (e₀ : Nat)
    (denied : Bool) (d : RaplDom)
    (hadd : addRapl rapl ⟨some name, some m, some (counterAt m e₀), denied⟩ = some (rapl ++ [d]))
    (before after : List (Option Nat)) (hgrows : Grows m.toNat e₀ (before ++ after)) :
    let primed := { (calls d (shown m before)).1 with totalJ := 0 }
    let now := calls primed (shown m after)
    now.1.totalJ * microJ = (lastOf e₀ (before ++ after) : ℚ) - lastOf e₀ before ∧
      sumOf now.2 = now.1.totalJ := by
  intro primed now
  obtain ⟨hbefore, hafter⟩ := grows_append.mp hgrows
  have hprimed : Saw m (lastOf e₀ before) primed := by
    obtain ⟨hsaw, -, -⟩ := calls_total hm (saw_addRapl hadd) hbefore
    exact ⟨hsaw.present, hsaw.range, hsaw.last⟩
  obtain ⟨-, htotal, hsum⟩ := calls_total hm hprimed hafter
  rw [zero_add] at htotal
  refine ⟨?_, hsum.trans htotal.symm⟩
  rw [htotal, lastOf_append, ← Nat.cast_sub (le_lastOf hafter)]
  exact div_mul_cancel₀ _ (by unfold microJ; decide)

/-- A counter modulo 10: a failed read, a wrap behind it, and another one. -/
theorem rapl_total_wraps :
    (calls { (calls ⟨"core".toList, 10, 4, 0, true⟩ (shown 10 [some 9])).1 with totalJ := 0 }
      (shown 10 [none, some 12, some 21])).1.totalJ * microJ = (21 : Nat) - (9 : Nat) :=
  (rapl_total [] "core".toList 10 (by decide) 4 false
    ⟨"core".toList, 10, 4, 0, true⟩ rfl [some 9] [none, some 12, some 21]
    (by simp [Grows])).1

end Energy

end FakeBigLittle
