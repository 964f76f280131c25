import FakeBigLittle.Loader.Options
import FakeBigLittle.Loader.Proofs
import FakeBigLittle.Runs

/-!
# What the loader attaches

The configuration of the scheduler as a function of the options and of the machine, and
`main` on its way to the run loop with it.
-/

namespace FakeBigLittle

open Runs CString

/-! ## The configuration -/

/-- `cpu_dom`, filled in behind the load. -/
def fillDomains (n : Nat) (cpus : Nat → CpuState) (skel : Config) : Config :=
  { skel with cpuDom := fun cpu => if cpu < n then (cpus cpu).domain else skel.cpuDom cpu }

def attachedConfig (o : Options) (n : Nat) (coreIdOf : Nat → Int) (skel : Config) :
    Except Fatal Config :=
  match resolvePartition o n coreIdOf fun _ => {} with
  | .error e => .error e
  | .ok (mode, cpus) =>
    match givenRules o.bigComm .big skel.commRules 0 with
    | .error e => .error e
    | .ok (rules, slot) =>
      match givenRules o.littleComm .little rules slot with
      | .error e => .error e
      | .ok (rules, _) =>
        .ok { fillDomains n cpus (rodata o n mode skel) with commRules := rules }

theorem attachedConfig_ok_iff {o : Options} {n : Nat} {coreIdOf : Nat → Int}
    {skel c : Config} : attachedConfig o n coreIdOf skel = .ok c ↔
      ∃ mode cpus rules slot rules' slot',
        (resolvePartition o n coreIdOf fun _ => {}) = .ok (mode, cpus) ∧
        givenRules o.bigComm .big skel.commRules 0 = .ok (rules, slot) ∧
        givenRules o.littleComm .little rules slot = .ok (rules', slot') ∧
        c = { fillDomains n cpus (rodata o n mode skel) with commRules := rules' } := by
  unfold attachedConfig
  constructor
  · intro h
    split at h
    · simp at h
    · rename_i mode cpus hres
      split at h
      · simp at h
      · rename_i rules slot hbig
        split at h
        · simp at h
        · rename_i rules' slot' hlittle
          exact ⟨mode, cpus, rules, slot, rules', slot', hres, hbig, hlittle,
            (Except.ok.inj h).symm⟩
  · rintro ⟨mode, cpus, rules, slot, rules', slot', hres, hbig, hlittle, rfl⟩
    simp only [hres, hbig, hlittle]

/-! ## On the way there -/

section Way

variable {o : Options} {n : Nat} {coreIdOf : Nat → Int} {skel : Config} {s t : Loader}
  {e : LoaderEvent}

/-- The mode and the domains are those of `resolvePartition`. -/
def Resolved (o : Options) (n : Nat) (coreIdOf : Nat → Int) (s : Loader) : Prop :=
  ∃ cpus, (resolvePartition o n coreIdOf fun _ => {}) = .ok (s.mode, cpus) ∧
    ∀ cpu, (s.cpus cpu).domain = (cpus cpu).domain

/-- How much of the configuration is in the skeleton when `main` is at `pc`. -/
def Prep (o : Options) (n : Nat) (coreIdOf : Nat → Int) (skel : Config) (s : Loader) : Prop :=
  match s.pc with
  | .resolve => s.cpus = (fun _ => {}) ∧ s.skel = skel ∧ s.slot = 0
  | .saveEpp _ | .applyEpp _ | .report | .openSkel =>
    Resolved o n coreIdOf s ∧ s.skel = skel ∧ s.slot = 0
  | .loadSkel => Resolved o n coreIdOf s ∧ s.skel = rodata o n s.mode skel ∧ s.slot = 0
  | .bigRules =>
    Resolved o n coreIdOf s ∧ s.skel = fillDomains n s.cpus (rodata o n s.mode skel) ∧ s.slot = 0
  | .littleRules =>
    Resolved o n coreIdOf s ∧ ∃ rules,
      givenRules o.bigComm .big skel.commRules 0 = .ok (rules, s.slot) ∧
      s.skel = { fillDomains n s.cpus (rodata o n s.mode skel) with commRules := rules }
  | .signalInt | .signalTerm | .attach | .loop => attachedConfig o n coreIdOf skel = .ok s.skel
  | _ => True

theorem fillDomains_congr {cpus cpus' : Nat → CpuState}
    (h : ∀ cpu, (cpus cpu).domain = (cpus' cpu).domain) (n : Nat) (skel : Config) :
    fillDomains n cpus skel = fillDomains n cpus' skel := by
  unfold fillDomains
  simp only [h]

theorem Resolved.of_eq (h : Resolved o n coreIdOf s) (hmode : t.mode = s.mode)
    (hcpus : ∀ cpu, (t.cpus cpu).domain = (s.cpus cpu).domain) : Resolved o n coreIdOf t := by
  obtain ⟨cpus, hres, hdom⟩ := h
  exact ⟨cpus, hmode ▸ hres, fun cpu => (hcpus cpu).trans (hdom cpu)⟩

theorem prep_resolve (hpc : s.pc = .resolve) (h : Prep o n coreIdOf skel s)
    (hstep : resolveStep o n s e = some t) : ∃ coreIdOf, Prep o n coreIdOf skel t := by
  simp only [Prep, hpc] at h
  obtain ⟨coreIdOf', -, ⟨err, -, rfl⟩ | ⟨mode, cpus, hres, rfl⟩⟩ := resolveStep_cases hstep
  · exact ⟨coreIdOf', trivial⟩
  · rw [h.1] at hres
    exact ⟨coreIdOf', ⟨cpus, hres, fun _ => rfl⟩, h.2⟩

theorem prep_save {cpu : Nat} (hpc : s.pc = .saveEpp cpu) (h : Prep o n coreIdOf skel s)
    (hstep : saveStep o n s cpu e = some t) : Prep o n coreIdOf skel t := by
  simp only [Prep, hpc] at h
  obtain ⟨epp, msr, -, -, rfl⟩ | ⟨-, -, rfl⟩ := saveStep_cases hstep
  · refine ⟨h.1.of_eq rfl fun i => ?_, h.2⟩
    rcases eq_or_ne i cpu with rfl | hne
    · simp [CpuState.save]
    · simp [hne]
  · cases hepp : o.noEpp
    · exact ⟨h.1, h.2⟩
    · exact ⟨h.1, h.2⟩

theorem prep_apply {cpu : Nat} (hpc : s.pc = .applyEpp cpu) (h : Prep o n coreIdOf skel s)
    (hstep : applyStep o n s cpu e = some t) : Prep o n coreIdOf skel t := by
  simp only [Prep, hpc] at h
  obtain ⟨msr, -, -, rfl⟩ | ⟨v, msr, -, -, rfl⟩ | ⟨-, -, rfl⟩ := applyStep_cases hstep
  · trivial
  · refine ⟨h.1.of_eq rfl fun i => ?_, h.2⟩
    rcases eq_or_ne i cpu with rfl | hne
    · simp [CpuState.reread]
    · simp [hne]
  · exact h

theorem prep_bigRules (hpc : s.pc = .bigRules) (h : Prep o n coreIdOf skel s)
    (hstep : rulesStep s o.bigComm .big .littleRules e = some t) : Prep o n coreIdOf skel t := by
  simp only [Prep, hpc] at h
  obtain ⟨hres, hskel, hslot⟩ := h
  obtain ⟨-, rules, slot, hok, rfl⟩ | ⟨-, -, rfl⟩ | ⟨-, -, rfl⟩ := rulesStep_cases hstep
  · rw [hskel, hslot] at hok
    exact ⟨hres, rules, hok, by rw [hskel]⟩
  · trivial
  · trivial

theorem attachedConfig_of_resolved (hres : Resolved o n coreIdOf s)
    {rules rules' : Nat → CommRule} {slot slot' : Nat}
    (hbig : givenRules o.bigComm .big skel.commRules 0 = .ok (rules, slot))
    (hlittle : givenRules o.littleComm .little rules slot = .ok (rules', slot')) :
    attachedConfig o n coreIdOf skel =
      .ok { fillDomains n s.cpus (rodata o n s.mode skel) with commRules := rules' } := by
  obtain ⟨cpus, hok, hdom⟩ := hres
  rw [fillDomains_congr hdom]
  exact attachedConfig_ok_iff.mpr ⟨_, cpus, rules, slot, rules', slot', hok, hbig, hlittle, rfl⟩

theorem prep_littleRules (hpc : s.pc = .littleRules) (h : Prep o n coreIdOf skel s)
    (hstep : rulesStep s o.littleComm .little .signalInt e = some t) :
    Prep o n coreIdOf skel t := by
  simp only [Prep, hpc] at h
  obtain ⟨hres, rules, hbig, hskel⟩ := h
  obtain ⟨-, rules', slot, hok, rfl⟩ | ⟨-, -, rfl⟩ | ⟨-, -, rfl⟩ := rulesStep_cases hstep
  · rw [hskel] at hok
    simp only [Prep, hskel]
    exact attachedConfig_of_resolved hres hbig hok
  · trivial
  · trivial

theorem prep_poll (hpc : s.pc = .loop) (h : Prep o n coreIdOf skel s)
    (hstep : pollStep o s e = some t) : Prep o n coreIdOf skel t := by
  simp only [Prep, hpc] at h
  obtain ⟨-, -, -, -, ⟨-, rfl⟩ | ⟨-, ⟨-, -, rfl⟩ | ⟨-, -, rfl⟩ | ⟨-, rfl⟩⟩⟩ :=
    pollStep_cases hstep
  · trivial
  · simpa only [Prep, hpc] using h
  · trivial
  · simpa only [Prep, hpc] using h

theorem prep_bpf (h : Prep o n coreIdOf skel s) (hmove : BpfMove o n s e t) :
    Prep o n coreIdOf skel t := by
  cases hmove with
  | dryRun | detached => cases o.persist <;> trivial
  | opened hpc =>
    simp only [Prep, hpc] at h
    exact ⟨h.1, by rw [h.2.1], h.2.2⟩
  | loaded hpc =>
    simp only [Prep, hpc] at h
    exact ⟨h.1, by rw [h.2.1]; rfl, h.2.2⟩
  | bigRules hpc hstep => exact prep_bigRules hpc h hstep
  | littleRules hpc hstep => exact prep_littleRules hpc h hstep
  | polled hpc hstep => exact prep_poll hpc h hstep
  -- These leave the skeleton alone.
  | report hpc | handlesInt hpc | handlesTerm hpc | attached hpc =>
    simp only [Prep, hpc] at h
    exact h
  -- And these leave the way.
  | fails | stats | statsFail => trivial

theorem prep_signal (h : Prep o n coreIdOf skel s) (sig : Sig) :
    Prep o n coreIdOf skel (signalStep s sig) := by
  unfold signalStep
  split_ifs
  · exact h
  · trivial

/-- Once the partition is resolved, every step keeps to it. -/
theorem prep_step (hpc : s.pc ≠ .resolve) (h : Prep o n coreIdOf skel s)
    (hstep : mainStep o n s e = some t) : Prep o n coreIdOf skel t := by
  cases mainStep_move hstep with
  | signal sig => exact prep_signal h sig
  | resolve hres => exact absurd hres hpc
  | save cpu hsave hstep => exact prep_save hsave h hstep
  | apply cpu happly hstep => exact prep_apply happly h hstep
  | restore cpu code hrestore hstep =>
    obtain ⟨-, -, -, -, -, rfl⟩ | ⟨-, -, -, rfl⟩ | ⟨-, -, rfl⟩ := restoreStep_cases hstep <;>
      trivial
  | bpf hmove => exact prep_bpf h hmove

theorem prep_main (h : ∃ coreIdOf, Prep o n coreIdOf skel s)
    (hstep : mainStep o n s e = some t) : ∃ coreIdOf, Prep o n coreIdOf skel t := by
  obtain ⟨coreIdOf, h⟩ := h
  by_cases hpc : s.pc = .resolve
  · cases e with
    | signal sig =>
      have hkill : t = signalStep s sig := by
        simpa [mainStep, hpc] using hstep.symm
      exact ⟨coreIdOf, hkill ▸ prep_signal h sig⟩
    | _ =>
      simp only [mainStep, hpc] at hstep
      exact prep_resolve hpc h hstep
  · exact ⟨coreIdOf, prep_step hpc h hstep⟩

/-! ## The run loop is reached -/

/-- How many calls `main` is away from its run loop, if nothing fails. -/
def Pc.distance (n : Nat) : Pc → Option Nat
  | .saveEpp cpu => some (n - cpu + 9)
  | .report => some 8
  | .openSkel => some 7
  | .loadSkel => some 6
  | .bigRules => some 5
  | .littleRules => some 4
  | .signalInt => some 3
  | .signalTerm => some 2
  | .attach => some 1
  | .loop => some 0
  | _ => none

theorem closer_of (e : LoaderEvent) (next : Pc) {pc : Pc} {i j k : Nat} (hpc : s.pc = pc)
    (hk : s.pc.distance n = some (k + 1)) (hi : pc.distance n = some i)
    (hj : next.distance n = some j) (hlt : j < i)
    (h : ∃ t, mainStep o n s e = some t ∧ t.pc = next) :
    ∃ e t j, mainStep o n s e = some t ∧ j ≤ k ∧ t.pc.distance n = some j := by
  obtain ⟨t, hstep, rfl⟩ := h
  rw [hpc, hi, Option.some.injEq] at hk
  exact ⟨e, t, j, hstep, by omega, hj⟩

/-- No error of the configuration stands in the way of the rules. -/
theorem rules_ok {list : Option Text} {d : Dom} {next : Pc} {rules : Nat → CommRule}
    {slot : Nat} (h : givenRules list d s.skel.commRules s.slot = .ok (rules, slot)) :
    ∃ t, rulesStep s list d next .ok = some t ∧ t.pc = next := by
  unfold rulesStep
  cases list with
  | none => exact ⟨_, rfl, rfl⟩
  | some l =>
    unfold givenRules at h
    simp only [h]
    exact ⟨_, rfl, rfl⟩

theorem closer (hdry : o.dryRun = false) (hepp : o.noEpp = true) {c : Config}
    (hc : attachedConfig o n coreIdOf skel = .ok c) (h : Prep o n coreIdOf skel s) {k : Nat}
    (hk : s.pc.distance n = some (k + 1)) :
    ∃ e t j, mainStep o n s e = some t ∧ j ≤ k ∧ t.pc.distance n = some j := by
  obtain ⟨-, -, rules, slot, rules', slot', -, hbig, hlittle, -⟩ := attachedConfig_ok_iff.mp hc
  cases hpc : s.pc with
  | saveEpp cpu =>
    rcases Nat.lt_or_ge cpu n with hcpu | hcpu
    · apply closer_of (.read false none) (.saveEpp (cpu + 1)) hpc hk rfl rfl (by omega)
      simp [mainStep, hpc, saveStep, hcpu]
    · apply closer_of .ok .report hpc hk rfl rfl (by omega)
      simp [mainStep, hpc, saveStep, hcpu, hepp]
  | bigRules =>
    simp only [Prep, hpc] at h
    apply closer_of .ok .littleRules hpc hk rfl rfl (by omega)
    have hok : givenRules o.bigComm .big s.skel.commRules s.slot = .ok (rules, slot) := by
      rw [h.2.1, h.2.2]
      exact hbig
    simpa only [mainStep, hpc, bpfStep] using rules_ok hok
  | littleRules =>
    simp only [Prep, hpc] at h
    apply closer_of .ok .signalInt hpc hk rfl rfl (by omega)
    obtain ⟨-, rules₀, hrules₀, hskel⟩ := h
    rw [hbig, Except.ok.injEq, Prod.mk.injEq] at hrules₀
    have hok : givenRules o.littleComm .little s.skel.commRules s.slot = .ok (rules', slot') := by
      rw [hskel, ← hrules₀.1, ← hrules₀.2]
      exact hlittle
    simpa only [mainStep, hpc, bpfStep] using rules_ok hok
  | report =>
    apply closer_of .ok .openSkel hpc hk rfl rfl (by omega)
    simp [mainStep, hpc, bpfStep, hdry]
  | openSkel =>
    apply closer_of .ok .loadSkel hpc hk rfl rfl (by omega)
    simp [mainStep, hpc, bpfStep]
  | loadSkel =>
    apply closer_of .ok .bigRules hpc hk rfl rfl (by omega)
    simp [mainStep, hpc, bpfStep]
  | signalInt =>
    apply closer_of .ok .signalTerm hpc hk rfl rfl (by omega)
    simp [mainStep, hpc, bpfStep]
  | signalTerm =>
    apply closer_of .ok .attach hpc hk rfl rfl (by omega)
    simp [mainStep, hpc, bpfStep]
  | attach =>
    apply closer_of .ok .loop hpc hk rfl rfl (by omega)
    simp [mainStep, hpc, bpfStep]
  | _ => simp [hpc, Pc.distance] at hk

/-- A configuration that the options describe is attached, if nothing fails. -/
theorem reaches_loop (hdry : o.dryRun = false) (hepp : o.noEpp = true) {c : Config}
    (hc : attachedConfig o n coreIdOf skel = .ok c) (k : Nat) (h : Prep o n coreIdOf skel s)
    (hk : s.pc.distance n = some k) :
    ∃ es t, run (mainStep o n) s es = some t ∧ t.pc = .loop ∧ t.skel = c := by
  induction k using Nat.strong_induction_on generalizing s with
  | _ k ih =>
    have hpc : s.pc ≠ .resolve := by
      intro hpc
      simp [hpc, Pc.distance] at hk
    cases k with
    | zero =>
      have hloop : s.pc = .loop := by
        cases hs : s.pc <;> simp [hs, Pc.distance] at hk ⊢
      simp only [Prep, hloop] at h
      exact ⟨[], s, rfl, hloop, by simpa using h.symm.trans hc⟩
    | succ k =>
      obtain ⟨e, t, j, hstep, hj, hdist⟩ := closer hdry hepp hc h hk
      obtain ⟨es, u, hrun, hu⟩ := ih j (by omega) (prep_step hpc h hstep) hdist
      exact ⟨e :: es, u, run_cons_eq_some.mpr ⟨t, hstep, hrun⟩, hu⟩

end Way

/-! ## What a command line launches -/

/-- On a machine with `n` CPUs, some run of `bls` gets to its run loop with `c`. -/
def Launches (positive : Text → Bool) (args : List Text) (n : Nat) (c : Config) : Prop :=
  ∃ o, optionLoop positive args {} = .ok o ∧ ∃ (s : Loader) (es : List LoaderEvent) (t : Loader),
    s.Start ∧ run (mainStep o n) s es = some t ∧ t.pc = .loop ∧ t.skel = c

theorem prep_start {o : Options} {n : Nat} {s : Loader} (h : s.Start) (coreIdOf : Nat → Int) :
    Prep o n coreIdOf s.skel s := by
  simp only [Prep, h.pc]
  exact ⟨h.cpus, trivial, h.slot⟩

/-- **What is launched is what the options describe.** -/
theorem launches_config {positive : Text → Bool} {args : List Text} {o : Options}
    (hargs : optionLoop positive args {} = .ok o) {n : Nat} {c : Config}
    (h : Launches positive args n c) :
    ∃ (s : Loader) (coreIdOf : Nat → Int),
      s.Start ∧ attachedConfig o n coreIdOf s.skel = .ok c := by
  obtain ⟨o', hargs', s, es, t, hstart, hrun, hpc, rfl⟩ := h
  obtain rfl : o = o' := by simpa using hargs.symm.trans hargs'
  obtain ⟨coreIdOf, hprep⟩ := inv_run (fun _ _ _ h hstep => prep_main h hstep) es
    ⟨fun _ => 0, prep_start hstart fun _ => 0⟩ hrun
  simp only [Prep, hpc] at hprep
  exact ⟨s, coreIdOf, hstart, hprep⟩

theorem launches_of_config {positive : Text → Bool} {args : List Text} {o : Options}
    (hargs : optionLoop positive args {} = .ok o) (hdry : o.dryRun = false)
    (hepp : o.noEpp = true) {n : Nat} {s : Loader} (hstart : s.Start) {coreIdOf : Nat → Int}
    {c : Config} (hc : attachedConfig o n coreIdOf s.skel = .ok c) :
    Launches positive args n c := by
  obtain ⟨mode, cpus, -, -, -, -, hres, -⟩ := attachedConfig_ok_iff.mp hc
  let t : Loader := { s with pc := .saveEpp 0, mode := mode, cpus := cpus }
  have hstep : mainStep o n s (.cores coreIdOf) = some t := by
    simp only [mainStep, hstart.pc, resolveStep, hstart.cpus, hres, t]
  have hprep : Prep o n coreIdOf s.skel t := ⟨⟨cpus, hres, fun _ => rfl⟩, rfl, hstart.slot⟩
  obtain ⟨es, u, hrun, hloop, hu⟩ := reaches_loop hdry hepp hc _ hprep rfl
  exact ⟨o, hargs, s, .cores coreIdOf :: es, u, hstart,
    run_cons_eq_some.mpr ⟨t, hstep, hrun⟩, hloop, hu⟩

end FakeBigLittle
