import FakeBigLittle.Loader.Epp
import FakeBigLittle.Loader.Readback

/-!
# `--no-epp`

The flag guards `apply_epp`. `restore_epp` is guarded by `--persist`, or by nothing, and
writes what `save_epp` read whether or not anything was applied, and whatever another agent
has set since.
-/

namespace FakeBigLittle

open Runs CString

/-- What happens on the machine: a call of the loader, or another agent that sets an EPP. -/
inductive HostEvent where
  | main (e : LoaderEvent)
  | agent (cpu : Nat) (v : Epp)

def hostStep (o : Options) (n : Nat) (s : Loader) : HostEvent → Option Loader
  | .main e => mainStep o n s e
  | .agent cpu v => some { s with epp := Function.update s.epp cpu v }

/-- The call leads `main` into `restore_epp`. -/
def Restores (o : Options) (s : Loader) : HostEvent → Prop
  | .main .ok => ((s.pc = .report ∧ o.dryRun = true) ∨ s.pc = .detach) ∧ o.persist = false
  | .main .fail => s.pc = .openSkel ∨ s.pc = .loadSkel ∨ s.pc = .attach
  | _ => False

/-- `save_epp` could read some EPP file. -/
def Readable (n : Nat) (s : Loader) : Prop := ∃ cpu < n, (s.cpus cpu).eppValid = true

/-- `main` does not go into `restore_epp` with an EPP to restore. -/
def LeavesEpp (o : Options) (n : Nat) (s : Loader) (e : HostEvent) : Prop :=
  Restores o s e → ¬ Readable n s

def Unwritten (s : Loader) : Prop := s.writes = []

-- Where `main` writes no EPP file.
def Pc.isQuiet : Pc → Bool
  | .applyEpp _ | .restoreEpp _ _ => false
  | _ => true

section Steps

variable {o : Options} {n : Nat} {s t : Loader} {e : HostEvent}

/-! ## Each call -/

theorem restores_enters {e : LoaderEvent} (h : BpfMove o n s e t) :
    t.writes = s.writes ∧ t.cpus = s.cpus ∧
      ((Restores o s (.main e) ∧ ∃ code, t.pc = .restoreEpp 0 code) ∨
        (¬ Restores o s (.main e) ∧ t.pc.isQuiet = true)) := by
  cases h with
  | dryRun hpc hdry =>
    refine ⟨rfl, rfl, ?_⟩
    cases hp : o.persist
    · exact Or.inl ⟨⟨Or.inl ⟨hpc, hdry⟩, hp⟩, 0, rfl⟩
    · exact Or.inr ⟨by simp [Restores, hp], rfl⟩
  | detached hpc =>
    refine ⟨rfl, rfl, ?_⟩
    cases hp : o.persist
    · exact Or.inl ⟨⟨Or.inr hpc, hp⟩, 0, rfl⟩
    · exact Or.inr ⟨by simp [Restores, hp], rfl⟩
  | fails hpc => exact ⟨rfl, rfl, Or.inl ⟨hpc, 1, rfl⟩⟩
  | bigRules hpc h | littleRules hpc h =>
    obtain ⟨rfl, -, -, -, rfl⟩ | ⟨rfl, -, rfl⟩ | ⟨rfl, -, rfl⟩ := rulesStep_cases h <;>
      exact ⟨rfl, rfl, Or.inr ⟨by simp [Restores, hpc], rfl⟩⟩
  | polled hpc h =>
    obtain ⟨-, -, -, rfl, ⟨-, rfl⟩ | ⟨-, ⟨-, -, rfl⟩ | ⟨-, -, rfl⟩ | ⟨-, rfl⟩⟩⟩ :=
      pollStep_cases h <;> exact ⟨rfl, rfl, Or.inr ⟨id, by simp [hpc, Pc.isQuiet, Loader.die]⟩⟩
  | report hpc hdry => exact ⟨rfl, rfl, Or.inr ⟨by simp [Restores, hpc, hdry], rfl⟩⟩
  | statsFail hpc => exact ⟨rfl, rfl, Or.inr ⟨by simp [Restores, hpc], rfl⟩⟩
  | _ => exact ⟨rfl, rfl, Or.inr ⟨by simp [Restores, *], rfl⟩⟩

/-- Outside `apply_epp` and `restore_epp` nothing is written. With `--no-epp` the first is
never reached, and the second as `Restores` says. -/
theorem quiet_step (hno : o.noEpp = true) (hquiet : s.pc.isQuiet = true)
    (hstep : hostStep o n s e = some t) : t.writes = s.writes ∧
      ((Restores o s e ∧ t.cpus = s.cpus ∧ ∃ code, t.pc = .restoreEpp 0 code) ∨
        (¬ Restores o s e ∧ t.pc.isQuiet = true)) := by
  cases e with
  | agent cpu v =>
    obtain rfl := Option.some.inj hstep
    exact ⟨rfl, Or.inr ⟨id, hquiet⟩⟩
  | main e =>
    cases mainStep_move hstep with
    | signal sig hrun =>
      unfold signalStep
      split_ifs
      · exact ⟨rfl, Or.inr ⟨id, hquiet⟩⟩
      · exact ⟨rfl, Or.inr ⟨id, rfl⟩⟩
    | resolve hpc h =>
      obtain ⟨coreIdOf, rfl, ⟨err, -, rfl⟩ | ⟨mode, cpus, -, rfl⟩⟩ := resolveStep_cases h <;>
        exact ⟨rfl, Or.inr ⟨id, rfl⟩⟩
    | save cpu hpc h =>
      obtain ⟨epp, msr, rfl, -, rfl⟩ | ⟨rfl, -, rfl⟩ := saveStep_cases h
      · exact ⟨rfl, Or.inr ⟨id, rfl⟩⟩
      · exact ⟨rfl, Or.inr ⟨by simp [Restores, hpc], by simp [hno, Pc.isQuiet]⟩⟩
    | apply cpu hpc h => simp [hpc, Pc.isQuiet] at hquiet
    | restore cpu code hpc h => simp [hpc, Pc.isQuiet] at hquiet
    | bpf hmove =>
      obtain ⟨hwrites, hcpus, hin | hout⟩ := restores_enters hmove
      · exact ⟨hwrites, Or.inl ⟨hin.1, hcpus, hin.2⟩⟩
      · exact ⟨hwrites, Or.inr hout⟩

/-- A step inside `restore_epp`. -/
theorem restore_step {cpu : Nat} {code : Int} (hpc : s.pc = .restoreEpp cpu code)
    (hstep : hostStep o n s e = some t) :
    ¬ Restores o s e ∧ t.cpus = s.cpus ∧
      ((t.writes = s.writes ∧ (t.pc = s.pc ∨ (∃ sig, t.pc = .killed sig) ∨
        (t.pc = .restoreEpp (cpu + 1) code ∧ (s.cpus cpu).eppValid = false) ∨
        (t.pc = .exited code ∧ n ≤ cpu))) ∨
      (t.writes ≠ [] ∧ t.pc = .restoreEpp (cpu + 1) code ∧ Readable n s)) := by
  cases e with
  | agent cpu v =>
    obtain rfl := Option.some.inj hstep
    exact ⟨id, rfl, Or.inl ⟨rfl, Or.inl rfl⟩⟩
  | main e =>
    cases mainStep_move hstep with
    | signal sig hrun =>
      unfold signalStep
      split_ifs
      · exact ⟨id, rfl, Or.inl ⟨rfl, Or.inl rfl⟩⟩
      · exact ⟨id, rfl, Or.inl ⟨rfl, Or.inr (Or.inl ⟨sig, rfl⟩)⟩⟩
    | restore cpu' code' hpc' h =>
      obtain ⟨rfl, rfl⟩ := Pc.restoreEpp.inj (hpc.symm.trans hpc')
      obtain ⟨shown, msr, rfl, hcpu, hvalid, rfl⟩ | ⟨rfl, hcpu, hvalid, rfl⟩ | ⟨rfl, hcpu, rfl⟩ :=
        restoreStep_cases h
      · exact ⟨id, rfl, Or.inr ⟨by simp [Loader.writeEpp], rfl, cpu, hcpu, hvalid⟩⟩
      · exact ⟨by simp [Restores, hpc], rfl, Or.inl ⟨rfl, Or.inr (Or.inr (Or.inl ⟨rfl, hvalid⟩))⟩⟩
      · exact ⟨by simp [Restores, hpc], rfl, Or.inl ⟨rfl, Or.inr (Or.inr (Or.inr ⟨rfl, hcpu⟩))⟩⟩
    | resolve hpc' h => simp [hpc] at hpc'
    | save cpu' hpc' h => simp [hpc] at hpc'
    | apply cpu' hpc' h => simp [hpc] at hpc'
    | bpf hmove => cases hmove <;> simp_all

/-! ## The invariants -/

/-- Nothing is written, and if `main` is in `restore_epp` there is nothing to restore. -/
structure Spared (n : Nat) (s : Loader) : Prop where
  unwritten : Unwritten s
  restoring : s.pc.isQuiet = true ∨ ((∃ cpu code, s.pc = .restoreEpp cpu code) ∧ ¬ Readable n s)

theorem spared_step (hno : o.noEpp = true) (h : Spared n s) (hleaves : LeavesEpp o n s e)
    (hstep : hostStep o n s e = some t) : Spared n t := by
  rcases h.restoring with hquiet | ⟨⟨cpu, code, hpc⟩, hnone⟩
  · obtain ⟨hwrites, ⟨hrestores, hcpus, code, hpc⟩ | ⟨-, hquiet⟩⟩ := quiet_step hno hquiet hstep
    · refine ⟨hwrites.trans h.unwritten, Or.inr ⟨⟨0, code, hpc⟩, ?_⟩⟩
      rw [Readable, hcpus]
      exact hleaves hrestores
    · exact ⟨hwrites.trans h.unwritten, Or.inl hquiet⟩
  · obtain ⟨-, hcpus, ⟨hwrites, hwhere⟩ | ⟨-, -, hread⟩⟩ := restore_step hpc hstep
    · refine ⟨hwrites.trans h.unwritten, ?_⟩
      rw [Readable, hcpus]
      rcases hwhere with hsame | ⟨sig, hkilled⟩ | ⟨hnext, -⟩ | ⟨hend, -⟩
      · exact Or.inr ⟨⟨cpu, code, hsame.trans hpc⟩, hnone⟩
      · exact Or.inl (by rw [hkilled]; rfl)
      · exact Or.inr ⟨⟨cpu + 1, code, hnext⟩, hnone⟩
      · exact Or.inl (by rw [hend]; rfl)
    · exact absurd hread hnone

/-- A write is not taken back. -/
theorem written_step (h : ¬ Unwritten s) (hstep : hostStep o n s e = some t) :
    ¬ Unwritten t := by
  cases e with
  | agent cpu v =>
    obtain rfl := Option.some.inj hstep
    exact h
  | main e =>
    cases mainStep_move hstep with
    | signal sig hrun =>
      unfold signalStep
      split_ifs <;> exact h
    | resolve hpc hres =>
      obtain ⟨coreIdOf, rfl, ⟨err, -, rfl⟩ | ⟨mode, cpus, -, rfl⟩⟩ := resolveStep_cases hres <;>
        exact h
    | save cpu hpc hsave =>
      obtain ⟨epp, msr, rfl, -, rfl⟩ | ⟨rfl, -, rfl⟩ := saveStep_cases hsave <;> exact h
    | apply cpu hpc happly =>
      obtain ⟨msr, rfl, -, rfl⟩ | ⟨v, msr, rfl, -, rfl⟩ | ⟨rfl, -, rfl⟩ := applyStep_cases happly
      · simp [Unwritten, Loader.die, Loader.writeEpp]
      · simp [Unwritten, Loader.writeEpp]
      · exact h
    | restore cpu code hpc hrestore =>
      obtain ⟨-, -, ⟨hwrites, -⟩ | ⟨hwrites, -⟩⟩ := restore_step hpc hstep
      · rwa [Unwritten, hwrites]
      · exact hwrites
    | bpf hmove =>
      obtain ⟨hwrites, -⟩ := restores_enters hmove
      rwa [Unwritten, hwrites]

/-- An EPP file was written, or `restore_epp` still has one to write, or a signal came first. -/
def Doomed (n : Nat) (s : Loader) : Prop :=
  ¬ Unwritten s ∨
    (∃ cpu code, s.pc = .restoreEpp cpu code ∧
      ∃ i, cpu ≤ i ∧ i < n ∧ (s.cpus i).eppValid = true) ∨
    ∃ sig, s.pc = .killed sig

theorem doomed_step (h : Doomed n s) (hstep : hostStep o n s e = some t) : Doomed n t := by
  rcases h with hwritten | ⟨cpu, code, hpc, i, hle, hi, hvalid⟩ | ⟨sig, hkilled⟩
  · exact Or.inl (written_step hwritten hstep)
  · obtain ⟨-, hcpus, ⟨-, hwhere⟩ | ⟨hwrites, -, -⟩⟩ := restore_step hpc hstep
    · rw [← hcpus] at hvalid
      rcases hwhere with hsame | hkilled | ⟨hnext, hinvalid⟩ | ⟨-, hend⟩
      · exact Or.inr (Or.inl ⟨cpu, code, hsame.trans hpc, i, hle, hi, hvalid⟩)
      · exact Or.inr (Or.inr hkilled)
      · rw [← hcpus] at hinvalid
        have hne : cpu ≠ i := by
          rintro rfl
          simp [hinvalid] at hvalid
        exact Or.inr (Or.inl ⟨cpu + 1, code, hnext, i, by omega, hi, hvalid⟩)
      · omega
    · exact Or.inl hwrites
  · cases e with
    | agent cpu v =>
      obtain rfl := Option.some.inj hstep
      exact Or.inr (Or.inr ⟨sig, hkilled⟩)
    | main e => simp [hostStep, mainStep, hkilled] at hstep

theorem doomed_of_restores (hno : o.noEpp = true) (h : Spared n s)
    (hstep : hostStep o n s e = some t) (hlost : ¬ LeavesEpp o n s e) : Doomed n t := by
  obtain ⟨hrestores, hread⟩ := Classical.not_imp.mp hlost
  obtain ⟨i, hi, hvalid⟩ := not_not.mp hread
  rcases h.restoring with hquiet | ⟨⟨cpu, code, hpc⟩, -⟩
  · obtain ⟨-, ⟨-, hcpus, code, hpc⟩ | ⟨hno', -⟩⟩ := quiet_step hno hquiet hstep
    · exact Or.inr (Or.inl ⟨0, code, hpc, i, Nat.zero_le i, hi, by rw [hcpus]; exact hvalid⟩)
    · exact absurd hrestores hno'
  · exact absurd hrestores (restore_step hpc hstep).1

end Steps

/-! ## Runs -/

/-- **When `--no-epp` leaves EPP alone.** No EPP file is written throughout a run in which
`main` does not go into `restore_epp` after it could read one. A run that gets to an exit
without a write is such a run. -/
theorem no_epp_spares (o : Options) (hno : o.noEpp = true) (n : Nat) (s t : Loader)
    (hstart : s.Start) (hunwritten : Unwritten s) (es : List HostEvent)
    (hrun : run (hostStep o n) s es = some t) :
    (StepsMeet (hostStep o n) (LeavesEpp o n) s es →
      StatesMeet (hostStep o n) Unwritten s es) ∧
    (∀ code, t.pc = .exited code → Unwritten t →
      StepsMeet (hostStep o n) (LeavesEpp o n) s es) := by
  have hspared : Spared n s := ⟨hunwritten, Or.inl (by rw [hstart.pc]; rfl)⟩
  constructor
  · intro hleaves
    apply StatesMeet.imp (fun _ => Spared.unwritten) es
    exact statesMeet_of_stepsMeet (fun _ _ _ h hstep hC => spared_step hno h hC hstep) es
      hspared hleaves
  · intro code hexit hclean
    by_contra hlost
    obtain ⟨k, u, hu, hdoomed⟩ := exists_of_not_stepsMeet
      (fun _ _ _ h hstep hC => spared_step hno h hC hstep)
      (fun _ _ _ h hstep hC => doomed_of_restores hno h hstep hC) es hspared hlost
    have hrest : run (hostStep o n) u (es.drop k) = some t := by
      rw [← List.take_append_drop k es, run_append, hu, Option.bind_some] at hrun
      exact hrun
    rcases inv_run (fun _ _ _ h hstep => doomed_step h hstep) _ hdoomed hrest with
      hwritten | ⟨cpu, code', hpc, -⟩ | ⟨sig, hkilled⟩
    · exact hwritten hclean
    · simp [hexit] at hpc
    · simp [hexit] at hkilled

-- A dry run on one CPU, up to the report.
def dryReport : List HostEvent :=
  [.main (.cores fun _ => 0), .main (.read true none), .main .ok, .agent 0 performance, .main .ok]

/-- With `--persist` too, it ends there without a write. -/
theorem no_epp_spares_persist : ∃ t,
    run (hostStep { noEppDry with persist := true } 1) loaderStart dryReport = some t ∧
      t.pc = .exited 0 ∧
      StatesMeet (hostStep { noEppDry with persist := true } 1) Unwritten loaderStart
        dryReport := by
  refine ⟨_, rfl, rfl, ?_⟩
  have h := no_epp_spares { noEppDry with persist := true } rfl 1 loaderStart _ loaderStart_start
    rfl dryReport rfl
  exact h.1 (h.2 0 rfl rfl)

/-- Without it, `restore_epp` takes back what another agent has set meanwhile. -/
theorem no_epp_spares_fails : noEppDry.noEpp = true ∧ ∃ s t,
    run (hostStep noEppDry 1) loaderStart dryReport = some s ∧ s.epp 0 = performance ∧
      run (hostStep noEppDry 1) s [.main (.write (some balanced) none), .main .ok] = some t ∧
      t.pc = .exited 0 ∧ t.writes = [(0, "balance_performance".toList)] ∧ t.epp 0 = balanced :=
  ⟨rfl, _, _, rfl, rfl, rfl, rfl, by rfl, rfl⟩

end FakeBigLittle
