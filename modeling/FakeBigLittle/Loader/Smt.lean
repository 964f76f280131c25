import FakeBigLittle.Loader.Epp
import FakeBigLittle.Runs
import Mathlib.Data.List.Range

/-!
# The SMT check

`check_smt_split` finds every core with CPUs in both domains. `main` calls it for what it
prints: the count that it returns decides nothing.
-/

namespace FakeBigLittle

open Runs CString

/-! ## `check_smt_split` -/

/-- The arrays `seen_core` and `seen_dom`, the last entry first, and the count. -/
structure SmtScan where
  seen : List (Int × Dom)
  bad : Nat

-- One round of the loop, for CPU `i`.
def smtRound (cpus : Nat → CpuState) (scan : SmtScan) (i : Nat) : SmtScan :=
  let c := (cpus i).coreId
  if c < 0 then scan
  else
    match scan.seen.find? fun e => e.1 == c with
    | none => { scan with seen := (c, (cpus i).domain) :: scan.seen }
    | some e => if e.2 ≠ (cpus i).domain then { scan with bad := scan.bad + 1 } else scan

def smtScan (cpus : Nat → CpuState) (n : Nat) : SmtScan :=
  (List.range n).foldl (smtRound cpus) ⟨[], 0⟩

def checkSmtSplit (n : Nat) (cpus : Nat → CpuState) : Nat := (smtScan cpus n).bad

/-- The lowest CPU below `n` on the core `c`. -/
def firstOn (cpus : Nat → CpuState) (n : Nat) (c : Int) : Option Nat :=
  (List.range n).find? fun j => (cpus j).coreId == c

/-- The core of `i` is known, and the first CPU there is in the other domain. -/
def mislabelled (cpus : Nat → CpuState) (i : Nat) : Bool :=
  decide (0 ≤ (cpus i).coreId) &&
    (firstOn cpus i (cpus i).coreId).any fun j => (cpus j).domain ≠ (cpus i).domain

/-- Two CPUs of one core are in different domains. -/
def Splits (n : Nat) (cpus : Nat → CpuState) : Prop :=
  ∃ i < n, ∃ j < n, (cpus i).coreId = (cpus j).coreId ∧ 0 ≤ (cpus i).coreId ∧
    (cpus i).domain ≠ (cpus j).domain

theorem smtScan_succ (cpus : Nat → CpuState) (n : Nat) :
    smtScan cpus (n + 1) = smtRound cpus (smtScan cpus n) n := by
  unfold smtScan
  rw [List.range_succ, List.foldl_append]
  rfl

theorem firstOn_succ (cpus : Nat → CpuState) (n : Nat) (c : Int) :
    firstOn cpus (n + 1) c =
      (firstOn cpus n c).or (if (cpus n).coreId = c then some n else none) := by
  unfold firstOn
  rw [List.range_succ, List.find?_append]
  by_cases hc : (cpus n).coreId = c
  · simp [hc]
  · simp [hc]

/-- `seen_dom` holds the domain of the first CPU of each core. -/
theorem smtScan_seen (cpus : Nat → CpuState) (n : Nat) {c : Int} (hc : 0 ≤ c) :
    ((smtScan cpus n).seen.find? fun e => e.1 == c) =
      (firstOn cpus n c).map fun j => (c, (cpus j).domain) := by
  induction n generalizing c with
  | zero => rfl
  | succ n ih =>
    rw [smtScan_succ, firstOn_succ, smtRound]
    by_cases hneg : (cpus n).coreId < 0
    · have hne : (cpus n).coreId ≠ c := by omega
      simp only [if_pos hneg, if_neg hne, Option.or_none]
      exact ih hc
    · simp only [if_neg hneg, ih (Int.not_lt.mp hneg)]
      by_cases heq : (cpus n).coreId = c
      · subst heq
        cases hfirst : firstOn cpus n (cpus n).coreId with
        | none => simp
        | some j =>
          rw [if_pos rfl, Option.map_some]
          simp only
          split_ifs <;> simp [ih hc, hfirst]
      · rw [if_neg heq, Option.or_none]
        cases hfirst : firstOn cpus n (cpus n).coreId with
        | none => simp [heq, ih hc]
        | some j =>
          rw [Option.map_some]
          simp only
          split_ifs <;> exact ih hc

theorem checkSmtSplit_succ (cpus : Nat → CpuState) (n : Nat) :
    checkSmtSplit (n + 1) cpus = checkSmtSplit n cpus + (if mislabelled cpus n then 1 else 0) := by
  unfold checkSmtSplit mislabelled
  rw [smtScan_succ, smtRound]
  by_cases hneg : (cpus n).coreId < 0
  · have hno : ¬ 0 ≤ (cpus n).coreId := by omega
    simp [hneg, hno]
  · have hcore : 0 ≤ (cpus n).coreId := by omega
    simp only [if_neg hneg, smtScan_seen cpus n hcore]
    cases firstOn cpus n (cpus n).coreId with
    | none => simp
    | some j =>
      simp only [Option.map_some]
      by_cases hdom : (cpus j).domain = (cpus n).domain <;> simp [hdom, hcore]

/-- `check_smt_split` counts the CPUs that are not in the domain of the first one of their
core. -/
theorem checkSmtSplit_eq (cpus : Nat → CpuState) (n : Nat) :
    checkSmtSplit n cpus = (List.range n).countP (mislabelled cpus) := by
  induction n with
  | zero => rfl
  | succ n ih =>
    rw [checkSmtSplit_succ, ih, List.range_succ, List.countP_append, List.countP_singleton]

theorem firstOn_eq_some {cpus : Nat → CpuState} {n j : Nat} {c : Int} :
    firstOn cpus n c = some j ↔
      j < n ∧ (cpus j).coreId = c ∧ ∀ i < j, (cpus i).coreId ≠ c := by
  unfold firstOn
  simp only [List.find?_range_eq_some, List.mem_range, beq_iff_eq, Bool.not_eq_true',
    beq_eq_false_iff_ne]
  tauto

theorem firstOn_isSome (cpus : Nat → CpuState) {n i : Nat} (hi : i < n) :
    (firstOn cpus n (cpus i).coreId).isSome = true := by
  unfold firstOn
  rw [List.find?_isSome]
  exact ⟨i, List.mem_range.mpr hi, by simp⟩

/-- A CPU that is not mislabelled is in the domain of the first one of its core. -/
theorem domain_eq_first {cpus : Nat → CpuState} {n i j : Nat}
    (hknown : 0 ≤ (cpus i).coreId) (hok : mislabelled cpus i = false)
    (hfirst : firstOn cpus n (cpus i).coreId = some j) :
    (cpus i).domain = (cpus j).domain := by
  obtain ⟨-, hcore, hbefore⟩ := firstOn_eq_some.mp hfirst
  obtain hlt | heq | hgt := Nat.lt_trichotomy i j
  · exact absurd rfl (hbefore i hlt)
  · rw [heq]
  · have hsame : firstOn cpus i (cpus i).coreId = some j :=
      firstOn_eq_some.mpr ⟨hgt, hcore, hbefore⟩
    unfold mislabelled at hok
    rw [hsame] at hok
    have hdom : (cpus j).domain = (cpus i).domain := by simpa [hknown] using hok
    exact hdom.symm

/-- A core is split exactly when `check_smt_split` warns. -/
theorem splits_iff (cpus : Nat → CpuState) (n : Nat) :
    Splits n cpus ↔ checkSmtSplit n cpus ≠ 0 := by
  rw [checkSmtSplit_eq, ne_eq, List.countP_eq_zero]
  constructor
  · rintro ⟨i, hi, j, hj, hcore, hknown, hdom⟩ hnone
    have hok : ∀ k < n, mislabelled cpus k = false := by
      intro k hk
      simpa using hnone k (List.mem_range.mpr hk)
    obtain ⟨k, hk⟩ := Option.isSome_iff_exists.mp (firstOn_isSome cpus hi)
    apply hdom
    rw [domain_eq_first hknown (hok i hi) hk,
      domain_eq_first (hcore ▸ hknown) (hok j hj) (hcore ▸ hk)]
  · intro hsome
    push Not at hsome
    obtain ⟨i, hi, hbad⟩ := hsome
    have hin : i < n := List.mem_range.mp hi
    unfold mislabelled at hbad
    rw [Bool.and_eq_true, decide_eq_true_eq, Option.any_eq_true] at hbad
    obtain ⟨hknown, j, hj, hdom⟩ := hbad
    obtain ⟨hji, hcore, -⟩ := firstOn_eq_some.mp hj
    exact ⟨j, by omega, i, hin, hcore, hcore ▸ hknown, by simpa using hdom⟩

/-! ## What a split partition leads to -/

/-- Where the scheduler is loaded or attached. -/
def Pc.isLoaded : Pc → Bool
  | .bigRules | .littleRules | .signalInt | .signalTerm | .attach | .loop | .stats
  | .detach => true
  | _ => false

/-- No run on this topology writes an EPP value, loads the scheduler or ends well. -/
def Refuses (o : Options) (n : Nat) (s : Loader) (coreIdOf : Nat → Int) : Prop :=
  ∀ es t, run (mainStep o n) s (.cores coreIdOf :: es) = some t →
    t.writes = s.writes ∧ t.pc.isLoaded = false ∧ t.pc ≠ .exited 0

section Unread

variable {o : Options} {n : Nat} {s : Loader}

-- `main` before it saves, or restores, the EPP of `cpu`, and nothing was read or written yet.
structure Unread (s₀ : Loader) (pc : Pc) (s : Loader) : Prop where
  pc : s.pc = pc
  writes : s.writes = s₀.writes
  invalid : ∀ cpu, (s.cpus cpu).eppValid = false

/-- `save_epp` on a machine where nothing can be read. -/
theorem saveEpp_unread (s₀ : Loader) (hs : Unread s₀ (.saveEpp 0) s) :
    ∃ t, run (mainStep o n) s (List.replicate n (.read false none)) = some t ∧
      Unread s₀ (.saveEpp n) t := by
  refine run_replicate (J := fun k => Unread s₀ (.saveEpp k)) (fun k hk s hsk => ?_) hs
  refine ⟨{ s with
    pc := .saveEpp (k + 1)
    cpus := Function.update s.cpus k ((s.cpus k).save none none) }, ?_, rfl, hsk.writes, ?_⟩
  · simp [mainStep, saveStep, hsk.pc, hk]
  · intro cpu
    obtain rfl | hne := eq_or_ne cpu k
    · simp [CpuState.save, hsk.invalid]
    · simp [hne, hsk.invalid]

/-- `restore_epp` with nothing saved. -/
theorem restoreEpp_unread {s₀ : Loader} {code : Int} (hs : Unread s₀ (.restoreEpp 0 code) s) :
    ∃ t, run (mainStep o n) s (List.replicate n .ok) = some t ∧
      Unread s₀ (.restoreEpp n code) t := by
  refine run_replicate (J := fun k => Unread s₀ (.restoreEpp k code)) (fun k hk s hsk => ?_) hs
  refine ⟨{ s with pc := .restoreEpp (k + 1) code }, ?_, rfl, hsk.writes, hsk.invalid⟩
  simp [mainStep, restoreStep, hsk.pc, hk, hsk.invalid]

-- `main` behind the saved values, by its options.
theorem step_saved {s₀ : Loader} (hs : Unread s₀ (.saveEpp n) s) :
    mainStep o n s .ok = some { s with pc := if o.noEpp then .report else .applyEpp 0 } := by
  simp [mainStep, saveStep, hs.pc]

theorem writes_unread {s₀ : Loader} (hs : Unread s₀ (.saveEpp n) s) (hepp : o.noEpp = false)
    (hn : 0 < n) : ∃ es t, run (mainStep o n) s es = some t ∧ t.writes ≠ s₀.writes := by
  refine ⟨[.ok, .write none none],
    ({ s with pc := .applyEpp 0 }.writeEpp 0 (o.want (s.cpus 0)) none).die, ?_, ?_⟩
  · rw [run_cons, step_saved hs, hepp]
    simp [run_cons, mainStep, applyStep, hn]
  · simp [Loader.die, Loader.writeEpp, hs.writes]

theorem loads_unread {s₀ : Loader} (hs : Unread s₀ (.saveEpp n) s) (hepp : o.noEpp = true)
    (hdry : o.dryRun = false) : ∃ es t, run (mainStep o n) s es = some t ∧ t.pc = .bigRules := by
  refine ⟨[.ok, .ok, .ok, .ok], ?_⟩
  rw [run_cons, step_saved hs, hepp]
  simp [run_cons, mainStep, bpfStep, hdry]

/-- A dry run ends behind the table, with nothing to give back. -/
theorem ends_unread {s₀ : Loader} (hs : Unread s₀ (.saveEpp n) s) (hepp : o.noEpp = true)
    (hdry : o.dryRun = true) : ∃ es t, run (mainStep o n) s es = some t ∧ t.pc = .exited 0 := by
  have hreport : ∃ t, run (mainStep o n) s [.ok, .ok] = some t ∧
      Unread s₀ (if o.persist then .exited 0 else .restoreEpp 0 0) t := by
    rw [run_cons, step_saved hs, hepp]
    refine ⟨_, by simp [run_cons, mainStep, bpfStep, hdry]; rfl, ?_⟩
    exact ⟨rfl, hs.writes, hs.invalid⟩
  obtain ⟨t, ht, hunread⟩ := hreport
  cases hpersist : o.persist with
  | true =>
    rw [hpersist, if_pos rfl] at hunread
    exact ⟨_, t, ht, hunread.pc⟩
  | false =>
    rw [hpersist, if_neg Bool.false_ne_true] at hunread
    obtain ⟨u, hu, hdone⟩ := restoreEpp_unread (o := o) (n := n) hunread
    have hexit : mainStep o n u .ok = some { u with pc := .exited 0 } := by
      simp [mainStep, restoreStep, hdone.pc]
    refine ⟨[.ok, .ok] ++ (List.replicate n .ok ++ [.ok]), { u with pc := .exited 0 }, ?_, rfl⟩
    rw [run_append, ht, Option.bind_some, run_append, hu, Option.bind_some, run_cons, hexit]
    rfl

end Unread

theorem resolvePartition_pos {o : Options} {n : Nat} {coreIdOf : Nat → Int}
    {cpus : Nat → CpuState} {r : ClassifyMode × (Nat → CpuState)}
    (h : resolvePartition o n coreIdOf cpus = .ok r) : 0 < n := by
  apply Nat.pos_of_ne_zero
  rintro rfl
  simp [resolvePartition] at h

/-- Nothing behind the partition turns it down: on a machine where nothing can be read, the
first EPP value is written, or the scheduler is loaded, or a dry run ends well. -/
theorem not_refuses {o : Options} {n : Nat} {s : Loader} {coreIdOf : Nat → Int}
    (hstart : s.Start) {mode : ClassifyMode} {cpus : Nat → CpuState}
    (hres : resolvePartition o n coreIdOf s.cpus = .ok (mode, cpus)) :
    ¬ Refuses o n s coreIdOf := by
  intro hrefuses
  have hn := resolvePartition_pos hres
  have hinvalid : ∀ cpu, (cpus cpu).eppValid = false := by
    intro cpu
    rw [(sameEpp_resolve o n coreIdOf _ _ _ hres cpu).1, hstart.cpus]
  have hcores : mainStep o n s (.cores coreIdOf) =
      some { s with pc := .saveEpp 0, mode := mode, cpus := cpus } := by
    simp [mainStep, resolveStep, hstart.pc, hres]
  obtain ⟨t, hreads, ht⟩ := saveEpp_unread (o := o) (n := n) s
    (s := { s with pc := .saveEpp 0, mode := mode, cpus := cpus }) ⟨rfl, rfl, hinvalid⟩
  -- what a run that goes on from `t` must leave alone
  have hgo : ∀ es u, run (mainStep o n) t es = some u →
      u.writes = s.writes ∧ u.pc.isLoaded = false ∧ u.pc ≠ .exited 0 := by
    intro es u hrun
    apply hrefuses (List.replicate n (.read false none) ++ es)
    rw [run_cons, hcores, Option.bind_some, run_append, hreads, Option.bind_some, hrun]
  cases hepp : o.noEpp with
  | false =>
    obtain ⟨es, u, hrun, hwrites⟩ := writes_unread ht hepp hn
    exact hwrites (hgo es u hrun).1
  | true =>
    cases hdry : o.dryRun with
    | false =>
      obtain ⟨es, u, hrun, hpc⟩ := loads_unread ht hepp hdry
      have hloaded := (hgo es u hrun).2.1
      simp [hpc, Pc.isLoaded] at hloaded
    | true =>
      obtain ⟨es, u, hrun, hpc⟩ := ends_unread ht hepp hdry
      exact (hgo es u hrun).2.2 hpc

/-! ## What the file comment promises -/

/-- **A split core is refused exactly when there is none**: what `check_smt_split` counts
does not stop `main`. -/
theorem split_refused_iff (o : Options) (n : Nat) (s : Loader) (hstart : s.Start)
    (coreIdOf : Nat → Int) :
    (∀ mode cpus, resolvePartition o n coreIdOf s.cpus = .ok (mode, cpus) →
      Splits n cpus → Refuses o n s coreIdOf) ↔
    ∀ mode cpus, resolvePartition o n coreIdOf s.cpus = .ok (mode, cpus) →
      checkSmtSplit n cpus = 0 := by
  constructor
  · intro hall mode cpus hres
    by_contra hbad
    exact not_refuses hstart hres (hall mode cpus hres ((splits_iff cpus n).mpr hbad))
  · intro hnone mode cpus hres hsplit
    exact absurd (hnone mode cpus hres) ((splits_iff cpus n).mp hsplit)

/-- Neighbours share a core: the halves of four CPUs split none. -/
theorem split_refused_iff_neighbours :
    ¬ ∃ mode cpus, resolvePartition {} 4 (fun cpu => (cpu / 2 : Nat)) loaderStart.cpus =
        .ok (mode, cpus) ∧
      Splits 4 cpus ∧ ¬ Refuses {} 4 loaderStart fun cpu => (cpu / 2 : Nat) := by
  rintro ⟨mode, cpus, hres, hsplit, hno⟩
  refine hno ((split_refused_iff {} 4 loaderStart loaderStart_start _).mpr ?_ mode cpus hres hsplit)
  intro mode cpus hres
  obtain ⟨rfl, rfl⟩ := Prod.mk.inj (Except.ok.inj hres)
  decide

/-- The siblings are `i` and `i + 2`, and the halves split both cores: the scheduler gets
attached. -/
theorem split_refused_fails :
    ∃ mode cpus, resolvePartition {} 4 (fun cpu => (cpu % 2 : Nat)) loaderStart.cpus =
        .ok (mode, cpus) ∧ Splits 4 cpus ∧ checkSmtSplit 4 cpus = 2 ∧
      ∃ t, run (mainStep {} 4) loaderStart (.cores (fun cpu => (cpu % 2 : Nat)) ::
          (List.replicate 4 (.read true none) ++ .ok ::
            (List.replicate 4 (.write (some performance) none) ++ List.replicate 9 .ok))) = some t ∧
        t.attached = true ∧ t.writes.length = 4 := by
  refine ⟨_, _, rfl, ⟨0, by omega, 2, by omega, by decide, by decide, by decide⟩, by decide, ?_⟩
  exact ⟨_, rfl, rfl, rfl⟩

end FakeBigLittle
