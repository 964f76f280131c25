import FakeBigLittle.Loader.Smt

/-!
# The arrays of the SMT check

`check_smt_split` keeps two arrays of `BLS_MAX_CPUS` entries on the stack. Here an access
outside them has no result, and the check with its arrays computes what it computes with a
list of the cores that were seen.
-/

namespace FakeBigLittle

/-! ## `check_smt_split` with its arrays -/

/-- `a[j]` in an array of `BLS_MAX_CPUS` entries. -/
def readAt {α : Type} (a : Nat → α) (j : Nat) : Option α :=
  if j < blsMaxCpus then some (a j) else none

-- `a[j] = v`
def writeAt {α : Type} (a : Nat → α) (j : Nat) (v : α) : Option (Nat → α) :=
  if j < blsMaxCpus then some (Function.update a j v) else none

/-- The variables of `check_smt_split`. -/
structure SmtTable where
  seenCore : Nat → Int
  seenDom : Nat → Dom
  nrSeen : Nat
  bad : Nat

/-- The inner loop: the last entry for the core `c`. -/
def findSeen (seenCore : Nat → Int) (c : Int) (nrSeen : Nat) : Option (Option Nat) :=
  (List.range nrSeen).foldlM (fun found j =>
    (readAt seenCore j).map fun core => if core = c then some j else found) none

-- One round of the outer loop, for CPU `i`.
def tableRound (cpus : Nat → CpuState) (s : SmtTable) (i : Nat) : Option SmtTable :=
  let c := (cpus i).coreId
  if c < 0 then some s
  else
    match findSeen s.seenCore c s.nrSeen with
    | none => none
    | some none =>
      match writeAt s.seenCore s.nrSeen c, writeAt s.seenDom s.nrSeen (cpus i).domain with
      | some seenCore, some seenDom =>
        some { s with seenCore := seenCore, seenDom := seenDom, nrSeen := s.nrSeen + 1 }
      | _, _ => none
    | some (some found) =>
      match readAt s.seenDom found with
      | none => none
      | some d => some (if d ≠ (cpus i).domain then { s with bad := s.bad + 1 } else s)

/-- What `check_smt_split` returns, unless it leaves its arrays. They hold anything at first. -/
def checkArrays (seenCore : Nat → Int) (seenDom : Nat → Dom) (n : Nat)
    (cpus : Nat → CpuState) : Option Nat :=
  ((List.range n).foldlM (tableRound cpus) ⟨seenCore, seenDom, 0, 0⟩).map (·.bad)

/-! ## The list of entries -/

/-- The first `n` entries, the last one first. -/
def entries (core : Nat → Int) (dom : Nat → Dom) : Nat → List (Int × Dom)
  | 0 => []
  | n + 1 => (core n, dom n) :: entries core dom n

def SmtTable.scan (s : SmtTable) : SmtScan := ⟨entries s.seenCore s.seenDom s.nrSeen, s.bad⟩

theorem entries_update (core : Nat → Int) (dom : Nat → Dom) (c : Int) (d : Dom) {k n : Nat}
    (h : n ≤ k) :
    entries (Function.update core k c) (Function.update dom k d) n = entries core dom n := by
  induction n with
  | zero => rfl
  | succ n ih =>
    simp only [entries]
    rw [ih (by omega), Function.update_of_ne (by omega), Function.update_of_ne (by omega)]

/-- The inner loop stays in the array and finds what a search from the last entry finds. -/
theorem findSeen_eq (core : Nat → Int) (dom : Nat → Dom) (c : Int) {n : Nat}
    (hn : n ≤ blsMaxCpus) : ∃ found, findSeen core c n = some found ∧
      (entries core dom n).find? (fun e => e.1 == c) = found.map (fun j => (core j, dom j)) ∧
      ∀ j, found = some j → j < n := by
  induction n with
  | zero => exact ⟨none, rfl, rfl, by simp⟩
  | succ n ih =>
    obtain ⟨found, hfound, hentry, hlt⟩ := ih (by omega)
    have hnext : findSeen core c (n + 1) = some (if core n = c then some n else found) := by
      have hread : readAt core n = some (core n) := if_pos (by omega)
      unfold findSeen at hfound ⊢
      rw [List.range_succ, List.foldlM_append, hfound]
      simp [hread]
    refine ⟨_, hnext, ?_, ?_⟩
    · rw [entries]
      by_cases hc : core n = c
      · rw [List.find?_cons_of_pos (by simp [hc]), if_pos hc, Option.map_some]
      · rw [List.find?_cons_of_neg (by simp [hc]), if_neg hc, hentry]
    · intro j hj
      split_ifs at hj with hc
      · obtain rfl := Option.some.inj hj
        omega
      · have := hlt j hj
        omega

/-! ## The rounds -/

/-- With room for one more core a round stays in the arrays, and does to them what it does to
the list. -/
theorem tableRound_eq (cpus : Nat → CpuState) (s : SmtTable) (i : Nat)
    (hroom : s.nrSeen < blsMaxCpus) : ∃ t, tableRound cpus s i = some t ∧
      t.scan = smtRound cpus s.scan i ∧ t.nrSeen ≤ s.nrSeen + 1 := by
  unfold tableRound smtRound
  by_cases hneg : (cpus i).coreId < 0
  · simp only [if_pos hneg]
    exact ⟨s, rfl, rfl, by omega⟩
  · obtain ⟨found, hfound, hentry, hlt⟩ :=
      findSeen_eq s.seenCore s.seenDom (cpus i).coreId (Nat.le_of_lt hroom)
    simp only [if_neg hneg, hfound, SmtTable.scan, hentry]
    cases found with
    | none =>
      simp only [writeAt, if_pos hroom, Option.map_none]
      refine ⟨_, rfl, ?_, Nat.le_refl _⟩
      simp only [entries, Function.update_self, entries_update _ _ _ _ (Nat.le_refl s.nrSeen)]
    | some j =>
      have hj : j < blsMaxCpus := Nat.lt_trans (hlt j rfl) hroom
      simp only [readAt, if_pos hj, Option.map_some]
      split_ifs
      · exact ⟨_, rfl, rfl, by simp only; omega⟩
      · exact ⟨_, rfl, rfl, by omega⟩

theorem tableRounds_eq (cpus : Nat → CpuState) (seenCore : Nat → Int) (seenDom : Nat → Dom)
    {n : Nat} (hn : n ≤ blsMaxCpus) : ∃ t,
      (List.range n).foldlM (tableRound cpus) ⟨seenCore, seenDom, 0, 0⟩ = some t ∧
      t.scan = smtScan cpus n ∧ t.nrSeen ≤ n := by
  induction n with
  | zero => exact ⟨_, rfl, rfl, Nat.le_refl 0⟩
  | succ n ih =>
    obtain ⟨s, hs, hscan, hle⟩ := ih (by omega)
    obtain ⟨t, ht, hround, hnr⟩ := tableRound_eq cpus s n (by omega)
    refine ⟨t, ?_, ?_, by omega⟩
    · rw [List.range_succ, List.foldlM_append, hs]
      simp [ht]
    · rw [hround, hscan, smtScan_succ]

/-! ## What is counted -/

/-- The core of `i` is known, and the lowest CPU on it is in the other domain. -/
def OffFirst (n : Nat) (cpus : Nat → CpuState) (i : Nat) : Prop :=
  0 ≤ (cpus i).coreId ∧ ∃ j < n, (cpus j).coreId = (cpus i).coreId ∧
    (∀ k < j, (cpus k).coreId ≠ (cpus i).coreId) ∧ (cpus j).domain ≠ (cpus i).domain

instance decidableOffFirst (n : Nat) (cpus : Nat → CpuState) (i : Nat) :
    Decidable (OffFirst n cpus i) := instDecidableAnd

theorem mislabelled_iff {n i : Nat} (cpus : Nat → CpuState) (hi : i < n) :
    mislabelled cpus i = true ↔ OffFirst n cpus i := by
  unfold mislabelled OffFirst
  rw [Bool.and_eq_true, decide_eq_true_eq, Option.any_eq_true]
  apply and_congr_right
  intro hknown
  simp only [decide_eq_true_eq]
  constructor
  · rintro ⟨j, hj, hdom⟩
    obtain ⟨hji, hcore, hbefore⟩ := firstOn_eq_some.mp hj
    exact ⟨j, by omega, hcore, hbefore, hdom⟩
  · rintro ⟨j, hj, hcore, hbefore, hdom⟩
    have hji : j < i := by
      rcases Nat.lt_trichotomy j i with hlt | rfl | hgt
      · exact hlt
      · exact absurd rfl hdom
      · exact absurd rfl (hbefore i hgt)
    exact ⟨j, firstOn_eq_some.mpr ⟨hji, hcore, hbefore⟩, hdom⟩

/-- **The SMT check is exact.** It stays in its arrays, counts the CPUs that are not in the
domain of the lowest CPU of their core, and counts none exactly when no core is split. -/
theorem check_smt_split_exact (n : Nat) (hn : n ≤ blsMaxCpus) (cpus : Nat → CpuState)
    (seenCore : Nat → Int) (seenDom : Nat → Dom) :
    ∃ bad, checkArrays seenCore seenDom n cpus = some bad ∧
      bad = ((List.range n).filter fun i => OffFirst n cpus i).length ∧
      (bad = 0 ↔ ¬ Splits n cpus) := by
  obtain ⟨t, ht, hscan, -⟩ := tableRounds_eq cpus seenCore seenDom hn
  have hbad : t.bad = checkSmtSplit n cpus := congrArg SmtScan.bad hscan
  refine ⟨t.bad, ?_, ?_, ?_⟩
  · rw [checkArrays, ht, Option.map_some]
  · rw [hbad, checkSmtSplit_eq, ← List.countP_eq_length_filter]
    apply List.countP_congr
    intro i hi
    rw [decide_eq_true_eq]
    exact mislabelled_iff cpus (List.mem_range.mp hi)
  · rw [hbad, splits_iff, not_not]

/-- Four CPUs whose siblings are `i` and `i + 2`, one of them of no known core. -/
theorem check_smt_split_exact_four : ∃ bad,
    checkArrays (fun _ => 7) (fun _ => .little) 4
      (defaultDomains 4 (fun cpu => if cpu = 3 then -1 else (cpu % 2 : Nat)) fun _ => {}) =
        some bad ∧ bad = 1 := by
  obtain ⟨bad, hbad, hcount, -⟩ := check_smt_split_exact 4 (by decide)
    (defaultDomains 4 (fun cpu => if cpu = 3 then -1 else (cpu % 2 : Nat)) fun _ => {})
    (fun _ => 7) (fun _ => .little)
  exact ⟨bad, hbad, hcount.trans (by decide)⟩

end FakeBigLittle
