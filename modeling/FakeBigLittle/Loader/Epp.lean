import FakeBigLittle.Loader.Proofs
import FakeBigLittle.Runs

/-!
# EPP is given back

`restore_epp` stands at the regular exits of `main`. `die` inside `apply_epp`,
`add_comm_rules` and `read_stats` does not pass it, and neither does a signal that comes
before its handler is installed.
-/

namespace FakeBigLittle

open Runs CString

/-! ## What `save_epp` reads -/

/-- `read_file` returns what the file shows, without the newline. -/
theorem readFile_epp (v : Epp) : readFile (v.text ++ ['\n']) 32 = v.text := by
  have hself : v.text.rdropWhile (fun c => c == '\n' || c == ' ') = v.text := by
    rw [List.rdropWhile_eq_self_iff]
    intro hne
    have := v.trimmed _ (List.getLast?_eq_getLast_of_ne_nil hne)
    simp [this]
  have hshort := v.short
  unfold readFile
  rcases Nat.lt_or_ge v.text.length 31 with hlt | hge
  · rw [List.take_of_length_le (by simp; omega), List.rdropWhile_concat_pos _ _ _ (by decide)]
    exact hself
  · rw [List.take_append_of_le_length (by omega), List.take_of_length_le (by omega)]
    exact hself

/-- Two CPU tables that agree in what `save_epp` fills in. -/
def SameEpp (cpus cpus' : Nat → CpuState) : Prop :=
  ∀ cpu, (cpus' cpu).eppValid = (cpus cpu).eppValid ∧
    (cpus' cpu).eppSaved = (cpus cpu).eppSaved

theorem SameEpp.refl (cpus : Nat → CpuState) : SameEpp cpus cpus := fun _ => ⟨rfl, rfl⟩

theorem SameEpp.trans {a b c : Nat → CpuState} (hab : SameEpp a b) (hbc : SameEpp b c) :
    SameEpp a c := by
  intro cpu
  rw [(hbc cpu).1, (hbc cpu).2]
  exact hab cpu

theorem sameEpp_set (cpus : Nat → CpuState) (cpu : Nat) (d : Dom) :
    SameEpp cpus (setDomain cpus cpu d) := by
  intro i
  unfold setDomain
  rcases eq_or_ne i cpu with rfl | hne
  · simp
  · simp [hne]

theorem sameEpp_all (n : Nat) (cpus : Nat → CpuState) (d : Dom) :
    SameEpp cpus (allDomains n cpus d) := by
  intro i
  unfold allDomains
  split_ifs <;> exact ⟨rfl, rfl⟩

theorem sameEpp_default (n : Nat) (coreIdOf : Nat → Int) (cpus : Nat → CpuState) :
    SameEpp cpus (defaultDomains n coreIdOf cpus) := by
  intro i
  unfold defaultDomains
  split_ifs <;> exact ⟨rfl, rfl⟩

theorem sameEpp_foldl (d : Dom) (l : List Nat) (cpus : Nat → CpuState) :
    SameEpp cpus (l.foldl (fun cpus c => setDomain cpus c d) cpus) := by
  induction l generalizing cpus with
  | nil => exact .refl cpus
  | cons c l ih => exact (sameEpp_set cpus c d).trans (ih _)

theorem sameEpp_parse (d : Dom) (fuel : Nat) (p : Text) (cpus cpus' : Nat → CpuState)
    (h : parseCpulistLoop d fuel p cpus = .ok cpus') : SameEpp cpus cpus' := by
  induction fuel generalizing p cpus with
  | zero =>
    cases p <;> simp only [parseCpulistLoop, Except.ok.injEq] at h <;> exact h ▸ .refl cpus
  | succ fuel ih =>
    cases p with
    | nil =>
      simp only [parseCpulistLoop, Except.ok.injEq] at h
      exact h ▸ .refl cpus
    | cons c p =>
      simp only [parseCpulistLoop] at h
      split at h
      · simp at h
      · rename_i a b rest hrange
        split_ifs at h
        have hfold := sameEpp_foldl d (List.range' a.toNat (b - a + 1).toNat) cpus
        split at h
        · rw [Except.ok.injEq] at h
          exact h ▸ hfold
        · exact hfold.trans (ih _ _ h)
        · simp at h

theorem sameEpp_given (list : Option Text) (d : Dom) (cpus cpus' : Nat → CpuState)
    (h : parseGiven list d cpus = .ok cpus') : SameEpp cpus cpus' := by
  cases list with
  | none =>
    rw [parseGiven, Except.ok.injEq] at h
    exact h ▸ .refl cpus
  | some list => exact sameEpp_parse d _ _ _ _ h

theorem sameEpp_resolve (o : Options) (n : Nat) (coreIdOf : Nat → Int)
    (cpus cpus' : Nat → CpuState) (mode : ClassifyMode)
    (h : resolvePartition o n coreIdOf cpus = .ok (mode, cpus')) : SameEpp cpus cpus' := by
  have hdefault := sameEpp_default n coreIdOf cpus
  unfold resolvePartition at h
  by_cases hn : n = 0 ∨ n > blsMaxCpus
  · simp [if_pos hn] at h
  by_cases hflat : o.flat = true
  · simp only [if_neg hn, if_pos hflat, Except.ok.injEq, Prod.mk.injEq] at h
    rw [← h.2]
    exact hdefault.trans (sameEpp_all _ _ _)
  by_cases hlists : (o.bigList.isSome || o.littleList.isSome) = true
  · simp only [if_neg hn, if_neg hflat, if_pos hlists] at h
    split at h
    · simp at h
    · rename_i a ha
      split at h
      · simp at h
      · rename_i b hb
        simp only [Except.ok.injEq, Prod.mk.injEq] at h
        rw [← h.2]
        apply SameEpp.trans _ (sameEpp_given _ _ _ _ hb)
        apply SameEpp.trans _ (sameEpp_given _ _ _ _ ha)
        exact hdefault.trans (sameEpp_all _ _ _)
  · simp only [if_neg hn, if_neg hflat, if_neg hlists, Except.ok.injEq, Prod.mk.injEq] at h
    rw [← h.2]
    exact hdefault

/-! ## Where `main` can go -/

/-- Between `save_epp` and `restore_epp`. -/
def Pc.isBetween : Pc → Bool
  | .resolve | .saveEpp _ | .restoreEpp _ _ | .exited _ | .killed _ => false
  | _ => true

/-- The step ends `main` without `restore_epp`. -/
def Abandons (o : Options) (s : Loader) : LoaderEvent → Prop
  | .signal sig => s.handles sig = false
  | .write shown _ => (∃ cpu, s.pc = .applyEpp cpu) ∧ shown = none
  | .fail => s.pc = .bigRules ∨ s.pc = .littleRules ∨ s.pc = .stats
  | .ok => (s.pc = .bigRules ∧ TooMany o.bigComm s.slot) ∨
      (s.pc = .littleRules ∧ TooMany o.littleComm s.slot)
  | .poll timeUp ejected memory => s.pc = .loop ∧ s.exiting = false ∧
      (o.duration && timeUp) = false ∧ ejected = false ∧ o.interval = true ∧ memory = false
  | .cores _ | .read _ _ => False

/-- Where `add_comm_rules` leads, and whether it abandons `main`. -/
theorem rulesStep_epp {s t : Loader} {list : Option Text} {d : Dom} {next : Pc}
    {e : LoaderEvent} (h : rulesStep s list d next e = some t) :
    t.epp = s.epp ∧ t.cpus = s.cpus ∧
      ((t.pc = next ∧ e = .ok ∧ ¬ TooMany list s.slot) ∨
      (t.pc = .exited 1 ∧ ((e = .ok ∧ TooMany list s.slot) ∨ e = .fail))) := by
  obtain ⟨rfl, rules, slot, hok, rfl⟩ | ⟨rfl, herr, rfl⟩ | ⟨rfl, -, rfl⟩ := rulesStep_cases h
  · refine ⟨rfl, rfl, Or.inl ⟨rfl, rfl, fun hmany => ?_⟩⟩
    obtain ⟨err, herr⟩ := (givenRules_error_iff list d s.skel.commRules s.slot).mpr hmany
    rw [herr] at hok
    simp at hok
  · exact ⟨rfl, rfl, Or.inr ⟨rfl, Or.inl ⟨rfl, (givenRules_error_iff _ _ _ _).mp herr⟩⟩⟩
  · exact ⟨rfl, rfl, Or.inr ⟨rfl, Or.inr rfl⟩⟩

theorem pollStep_epp {o : Options} {s t : Loader} {e : LoaderEvent} (hpc : s.pc = .loop)
    (h : pollStep o s e = some t) : t.epp = s.epp ∧ t.cpus = s.cpus ∧
      ((t.pc.isBetween = true ∧ ¬ Abandons o s e) ∨ (t.pc = .exited 1 ∧ Abandons o s e)) := by
  obtain ⟨timeUp, ejected, memory, rfl, ⟨hover, rfl⟩ | ⟨hgo, hstays⟩⟩ := pollStep_cases h
  · refine ⟨rfl, rfl, Or.inl ⟨rfl, ?_⟩⟩
    rintro ⟨-, hexit, htime, hejected, -⟩
    unfold LoopOver at hover
    simp [hexit, htime, hejected] at hover
  · obtain ⟨-, hmemory, rfl⟩ | ⟨hinterval, hmemory, rfl⟩ | ⟨hinterval, rfl⟩ := hstays
    · exact ⟨rfl, rfl, Or.inl ⟨by rw [hpc]; rfl, by simp [Abandons, hmemory]⟩⟩
    · simp only [LoopOver, not_or, Bool.not_eq_true] at hgo
      exact ⟨rfl, rfl, Or.inr ⟨rfl, hpc, hgo.1, hgo.2.1, hgo.2.2, hinterval, hmemory⟩⟩
    · exact ⟨rfl, rfl, Or.inl ⟨by rw [hpc]; rfl, by simp [Abandons, hinterval]⟩⟩

/-- The calls between `apply_epp` and `restore_epp` leave the EPP files and the CPU table
alone, and those that end `main` are the ones that abandon it. -/
theorem bpfMove_epp {o : Options} {n : Nat} {s t : Loader} {e : LoaderEvent}
    (h : BpfMove o n s e t) : t.epp = s.epp ∧ t.cpus = s.cpus ∧
      ((t.pc.isBetween = true ∧ ¬ Abandons o s e) ∨
      ((∃ code, t.pc = .restoreEpp 0 code) ∧ ¬ Abandons o s e) ∨
      (o.persist = true ∧ t.pc = .exited 0 ∧ ¬ Abandons o s e) ∨
      (t.pc = .exited 1 ∧ Abandons o s e)) := by
  cases h with
  | bigRules hpc h =>
    obtain ⟨hepp, hcpus, ⟨hnext, rfl, hfew⟩ | ⟨hend, hwhy⟩⟩ := rulesStep_epp h
    · exact ⟨hepp, hcpus, Or.inl ⟨by rw [hnext]; rfl, by simpa [Abandons, hpc] using hfew⟩⟩
    · refine ⟨hepp, hcpus, Or.inr (Or.inr (Or.inr ⟨hend, ?_⟩))⟩
      rcases hwhy with ⟨rfl, hmany⟩ | rfl
      · exact Or.inl ⟨hpc, hmany⟩
      · exact Or.inl hpc
  | littleRules hpc h =>
    obtain ⟨hepp, hcpus, ⟨hnext, rfl, hfew⟩ | ⟨hend, hwhy⟩⟩ := rulesStep_epp h
    · exact ⟨hepp, hcpus, Or.inl ⟨by rw [hnext]; rfl, by simpa [Abandons, hpc] using hfew⟩⟩
    · refine ⟨hepp, hcpus, Or.inr (Or.inr (Or.inr ⟨hend, ?_⟩))⟩
      rcases hwhy with ⟨rfl, hmany⟩ | rfl
      · exact Or.inr ⟨hpc, hmany⟩
      · exact Or.inr (Or.inl hpc)
  | polled hpc h =>
    obtain ⟨hepp, hcpus, hnext | hend⟩ := pollStep_epp hpc h
    · exact ⟨hepp, hcpus, Or.inl hnext⟩
    · exact ⟨hepp, hcpus, Or.inr (Or.inr (Or.inr hend))⟩
  | dryRun hpc _ | detached hpc =>
    refine ⟨rfl, rfl, ?_⟩
    cases hp : o.persist <;> simp [Abandons, hpc]
  | fails hpc =>
    refine ⟨rfl, rfl, Or.inr (Or.inl ⟨⟨1, rfl⟩, ?_⟩)⟩
    rcases hpc with hpc | hpc | hpc <;> simp [Abandons, hpc]
  | statsFail hpc => exact ⟨rfl, rfl, Or.inr (Or.inr (Or.inr ⟨rfl, Or.inr (Or.inr hpc)⟩))⟩
  | _ => exact ⟨rfl, rfl, Or.inl ⟨rfl, by simp [Abandons, *]⟩⟩

/-! ## The EPP files -/

/-- The EPP of a CPU that could be read differs from what was saved. -/
def Changed (n : Nat) (s : Loader) : Prop :=
  ∃ cpu < n, (s.cpus cpu).eppValid = true ∧ (s.epp cpu).text ≠ (s.cpus cpu).eppSaved

/-- When `main` has ended, every CPU that could be read has the EPP it started with. -/
def GivenBack (n : Nat) (start : Nat → Epp) (s : Loader) : Prop :=
  s.pc.isEnd = true → ∀ cpu < n, (s.cpus cpu).eppValid = true → s.epp cpu = start cpu

/-- `restore_epp` writes back what was read from the CPU, and this write succeeds. -/
def WritesBack (s : Loader) : LoaderEvent → Prop
  | .write shown _ =>
    match s.pc with
    | .restoreEpp cpu _ => shown.map (·.text) = some (s.cpus cpu).eppSaved
    | _ => True
  | _ => True

/-- No step ends `main` without `restore_epp` while an EPP is changed. -/
def KeepsEpp (o : Options) (n : Nat) (s : Loader) (e : LoaderEvent) : Prop :=
  Abandons o s e → ¬ Changed n s

structure EppInv (start : Nat → Epp) (s : Loader) : Prop where
  saved : ∀ cpu, (s.cpus cpu).eppValid = true → (s.cpus cpu).eppSaved = (start cpu).text
  fresh : s.pc = .resolve → ∀ cpu, (s.cpus cpu).eppValid = false
  before : (s.pc = .resolve ∨ ∃ cpu, s.pc = .saveEpp cpu) → s.epp = start
  after : ∀ cpu code, s.pc = .restoreEpp cpu code →
    ∀ i < cpu, (s.cpus i).eppValid = true → s.epp i = start i

theorem not_changed_iff {start : Nat → Epp} {s : Loader} (h : EppInv start s) (n : Nat) :
    ¬ Changed n s ↔ ∀ cpu < n, (s.cpus cpu).eppValid = true → s.epp cpu = start cpu := by
  constructor
  · intro hno cpu hcpu hvalid
    by_contra hne
    refine hno ⟨cpu, hcpu, hvalid, fun heq => hne (Epp.ext ?_)⟩
    rw [heq, h.saved cpu hvalid]
  · rintro hback ⟨cpu, hcpu, hvalid, hne⟩
    rw [hback cpu hcpu hvalid, h.saved cpu hvalid] at hne
    exact hne rfl

/-- Where `main` is does not matter to the invariant between `save_epp` and `restore_epp`,
nor after the end. -/
theorem eppInv_of_saved {start : Nat → Epp} {t : Loader} (hpc : t.pc.isBetween = true ∨
      t.pc.isEnd = true)
    (hsaved : ∀ cpu, (t.cpus cpu).eppValid = true → (t.cpus cpu).eppSaved = (start cpu).text) :
    EppInv start t := by
  refine ⟨hsaved, fun h => ?_, fun h => ?_, fun cpu code h => ?_⟩
  · rw [h] at hpc
    simp [Pc.isBetween, Pc.isEnd] at hpc
  · rcases h with h | ⟨cpu, h⟩ <;> rw [h] at hpc <;> simp [Pc.isBetween, Pc.isEnd] at hpc
  · rw [h] at hpc
    simp [Pc.isBetween, Pc.isEnd] at hpc

/-- A step that does not end `main` has nothing to give back yet. -/
theorem givenBack_of_running {n : Nat} {start : Nat → Epp} {o : Options} {s t : Loader}
    {e : LoaderEvent} (hend : t.pc.isEnd = false) (hno : ¬ Abandons o s e) :
    GivenBack n start t ↔ KeepsEpp o n s e := by
  refine ⟨fun _ h => absurd h hno, fun _ h => ?_⟩
  rw [hend] at h
  exact absurd h (by simp)

/-- A step that abandons `main` leaves the EPP files as they are. -/
theorem givenBack_of_abandoned {n : Nat} {start : Nat → Epp} {o : Options} {s t : Loader}
    {e : LoaderEvent} (h : EppInv start s) (hend : t.pc.isEnd = true) (hepp : t.epp = s.epp)
    (hcpus : t.cpus = s.cpus) (hyes : Abandons o s e) :
    GivenBack n start t ↔ KeepsEpp o n s e := by
  unfold GivenBack KeepsEpp
  rw [hend, hepp, hcpus, not_changed_iff h]
  exact ⟨fun hback _ => hback rfl, fun hkeep _ => hkeep hyes⟩

/-! ## Each call -/

section Steps

variable {o : Options} {n : Nat} {start : Nat → Epp} {s t : Loader} {e : LoaderEvent}

theorem epp_signal (h : EppInv start s) (hrun : s.pc.isEnd = false) (sig : Sig) :
    EppInv start (signalStep s sig) ∧
      (GivenBack n start (signalStep s sig) ↔ KeepsEpp o n s (.signal sig)) := by
  unfold signalStep
  split_ifs with hhandles
  · refine ⟨⟨h.saved, h.fresh, h.before, h.after⟩, givenBack_of_running hrun ?_⟩
    simp [Abandons, hhandles]
  · refine ⟨eppInv_of_saved (Or.inr rfl) h.saved, givenBack_of_abandoned h rfl rfl rfl ?_⟩
    simpa [Abandons] using hhandles

theorem epp_resolve (h : EppInv start s) (hpc : s.pc = .resolve)
    (hstep : resolveStep o n s e = some t) :
    EppInv start t ∧ (GivenBack n start t ↔ KeepsEpp o n s e) := by
  have hfresh := h.fresh hpc
  obtain ⟨coreIdOf, rfl, ⟨err, -, rfl⟩ | ⟨mode, cpus, hres, rfl⟩⟩ := resolveStep_cases hstep
  · refine ⟨eppInv_of_saved (Or.inr rfl) h.saved, fun _ ha => absurd ha id, ?_⟩
    intro _ _ cpu _ hvalid
    exact absurd (hvalid.symm.trans (hfresh cpu)) (by simp)
  · have hsame := sameEpp_resolve o n coreIdOf s.cpus cpus mode hres
    have hinvalid : ∀ cpu, (cpus cpu).eppValid = false := by
      intro cpu
      rw [(hsame cpu).1]
      exact hfresh cpu
    refine ⟨⟨fun cpu hvalid => ?_, fun _ => hinvalid, fun _ => h.before (Or.inl hpc), ?_⟩,
      givenBack_of_running rfl id⟩
    · exact absurd (hvalid.symm.trans (hinvalid cpu)) (by simp)
    · simp

theorem epp_save (h : EppInv start s) {cpu : Nat} (hpc : s.pc = .saveEpp cpu)
    (hstep : saveStep o n s cpu e = some t) :
    EppInv start t ∧ (GivenBack n start t ↔ KeepsEpp o n s e) := by
  have hstart := h.before (Or.inr ⟨cpu, hpc⟩)
  obtain ⟨epp, msr, rfl, -, rfl⟩ | ⟨rfl, -, rfl⟩ := saveStep_cases hstep
  · refine ⟨⟨fun i hvalid => ?_, by simp, fun _ => hstart, by simp⟩,
      givenBack_of_running rfl id⟩
    rcases eq_or_ne i cpu with rfl | hne
    · simp only [Function.update_self] at hvalid ⊢
      cases epp with
      | true => simp [CpuState.save, readFile_epp, hstart]
      | false =>
        apply h.saved i
        simpa [CpuState.save] using hvalid
    · simp only [Function.update_of_ne hne] at hvalid ⊢
      exact h.saved i hvalid
  · refine ⟨eppInv_of_saved (Or.inl ?_) h.saved, givenBack_of_running ?_ ?_⟩
    · cases o.noEpp <;> rfl
    · cases o.noEpp <;> rfl
    · simp [Abandons, hpc]

theorem epp_apply (h : EppInv start s) {cpu : Nat} (hpc : s.pc = .applyEpp cpu)
    (hstep : applyStep o n s cpu e = some t) :
    EppInv start t ∧ (GivenBack n start t ↔ KeepsEpp o n s e) := by
  obtain ⟨msr, rfl, -, rfl⟩ | ⟨v, msr, rfl, -, rfl⟩ | ⟨rfl, -, rfl⟩ := applyStep_cases hstep
  · -- The write failed, so the file shows what it did.
    have hsame : (s.writeEpp cpu (o.want (s.cpus cpu)) none).epp = s.epp := by
      simp [Loader.writeEpp]
    exact ⟨eppInv_of_saved (Or.inr rfl) h.saved,
      givenBack_of_abandoned h rfl hsame rfl ⟨⟨cpu, hpc⟩, rfl⟩⟩
  · refine ⟨eppInv_of_saved (Or.inl rfl) fun i hvalid => ?_,
      givenBack_of_running rfl (by simp [Abandons])⟩
    rcases eq_or_ne i cpu with rfl | hne
    · simp only [Function.update_self] at hvalid ⊢
      exact h.saved i hvalid
    · simp only [Function.update_of_ne hne] at hvalid ⊢
      exact h.saved i hvalid
  · exact ⟨eppInv_of_saved (Or.inl rfl) h.saved,
      givenBack_of_running rfl (by simp [Abandons, hpc])⟩

theorem epp_restore (h : EppInv start s) (hback : WritesBack s e) {cpu : Nat} {code : Int}
    (hpc : s.pc = .restoreEpp cpu code) (hstep : restoreStep n s cpu code e = some t) :
    EppInv start t ∧ (GivenBack n start t ↔ KeepsEpp o n s e) := by
  have hafter := h.after cpu code hpc
  obtain ⟨shown, msr, rfl, -, hvalid, rfl⟩ | ⟨rfl, -, hvalid, rfl⟩ | ⟨rfl, hcpu, rfl⟩ :=
    restoreStep_cases hstep
  · simp only [WritesBack, hpc, Option.map_eq_some_iff] at hback
    obtain ⟨v, rfl, hv⟩ := hback
    have hvstart : v = start cpu := Epp.ext (hv.trans (h.saved cpu hvalid))
    refine ⟨⟨h.saved, by simp, by simp, ?_⟩, givenBack_of_running rfl (by simp [Abandons, hpc])⟩
    intro c code' hc i hi hivalid
    simp only [Pc.restoreEpp.injEq] at hc
    rcases eq_or_ne i cpu with rfl | hne
    · simp [Loader.writeEpp, hvstart]
    · simp only [Loader.writeEpp, Function.update_of_ne hne]
      exact hafter i (by omega) hivalid
  · refine ⟨⟨h.saved, by simp, by simp, ?_⟩, givenBack_of_running rfl (by simp [Abandons, hpc])⟩
    intro c code' hc i hi hivalid
    simp only [Pc.restoreEpp.injEq] at hc
    rcases eq_or_ne i cpu with rfl | hne
    · exact absurd (hivalid.symm.trans hvalid) (by simp)
    · exact hafter i (by omega) hivalid
  · refine ⟨eppInv_of_saved (Or.inr rfl) h.saved, fun _ ha => ?_, fun _ _ i hi hivalid => ?_⟩
    · simp [Abandons, hpc] at ha
    · exact hafter i (by omega) hivalid

theorem epp_bpf (hp : o.persist = false) (h : EppInv start s) (hmove : BpfMove o n s e t) :
    EppInv start t ∧ (GivenBack n start t ↔ KeepsEpp o n s e) := by
  obtain ⟨hepp, hcpus, hcases⟩ := bpfMove_epp hmove
  have hsaved : ∀ cpu, (t.cpus cpu).eppValid = true →
      (t.cpus cpu).eppSaved = (start cpu).text := hcpus ▸ h.saved
  rcases hcases with ⟨hpc, hno⟩ | ⟨⟨code, hpc⟩, hno⟩ | ⟨hpersist, -⟩ | ⟨hpc, hyes⟩
  · refine ⟨eppInv_of_saved (Or.inl hpc) hsaved, givenBack_of_running ?_ hno⟩
    revert hpc
    cases t.pc <;> simp [Pc.isBetween, Pc.isEnd]
  · refine ⟨⟨hsaved, by simp [hpc], by simp [hpc], ?_⟩, givenBack_of_running (by rw [hpc]; rfl) hno⟩
    intro c code' hc i hi
    rw [hpc, Pc.restoreEpp.injEq] at hc
    omega
  · rw [hp] at hpersist
    exact absurd hpersist (by simp)
  · have hend : t.pc.isEnd = true := by rw [hpc]; rfl
    exact ⟨eppInv_of_saved (Or.inr hend) hsaved, givenBack_of_abandoned h hend hepp hcpus hyes⟩

theorem epp_step (hp : o.persist = false) (h : EppInv start s) (hback : WritesBack s e)
    (hstep : mainStep o n s e = some t) :
    EppInv start t ∧ (GivenBack n start t ↔ KeepsEpp o n s e) := by
  cases mainStep_move hstep with
  | signal sig hrun => exact epp_signal h hrun sig
  | resolve hpc hstep => exact epp_resolve h hpc hstep
  | save cpu hpc hstep => exact epp_save h hpc hstep
  | apply cpu hpc hstep => exact epp_apply h hpc hstep
  | restore cpu code hpc hstep => exact epp_restore h hback hpc hstep
  | bpf hmove => exact epp_bpf hp h hmove

end Steps

/-! ## Runs -/

/-- **When the loader gives EPP back.** Without `--persist`, a run leaves every readable CPU
with its starting EPP exactly when no step of it ends `main` past `restore_epp` while the
EPP of such a CPU is changed. -/
theorem epp_given_back_iff (o : Options) (hp : o.persist = false) (n : Nat) (s : Loader)
    (hstart : s.Start) (es : List LoaderEvent)
    (hback : StepsMeet (mainStep o n) WritesBack s es) :
    StatesMeet (mainStep o n) (GivenBack n s.epp) s es ↔
      StepsMeet (mainStep o n) (KeepsEpp o n) s es := by
  refine statesMeet_iff (I := EppInv s.epp) ?_ es ?_ ?_ hback
  · exact fun s' e t h _ hb hstep => epp_step hp h hb hstep
  · have hfresh : ∀ cpu, (s.cpus cpu).eppValid = false := by simp [hstart.cpus]
    refine ⟨fun cpu hvalid => ?_, fun _ => hfresh, fun _ => rfl, ?_⟩
    · exact absurd (hvalid.symm.trans (hfresh cpu)) (by simp)
    · simp [hstart.pc]
  · simp [GivenBack, hstart.pc, Pc.isEnd]

/-! ## A machine with two CPUs -/

def performance : Epp where
  text := "performance".toList
  short := by decide
  trimmed := by simp

/-- A dry run on one CPU gives its EPP back. -/
theorem epp_given_back_iff_dry :
    StatesMeet (mainStep { dryRun := true } 1) (GivenBack 1 loaderStart.epp) loaderStart
        [.cores fun _ => 0, .read true none, .ok, .write (some performance) none, .ok, .ok,
          .write (some balanced) none, .ok, .ok] ↔
      StepsMeet (mainStep { dryRun := true } 1) (KeepsEpp { dryRun := true } 1) loaderStart
        [.cores fun _ => 0, .read true none, .ok, .write (some performance) none, .ok, .ok,
          .write (some balanced) none, .ok, .ok] := by
  refine epp_given_back_iff { dryRun := true } rfl 1 loaderStart loaderStart_start _ ?_
  refine fun t₁ h₁ => ⟨trivial, fun t₂ h₂ => ⟨trivial, fun t₃ h₃ => ⟨trivial, ?_⟩⟩⟩
  obtain rfl := Option.some.inj h₁
  obtain rfl := Option.some.inj h₂
  obtain rfl := Option.some.inj h₃
  refine fun t₄ h₄ => ⟨trivial, fun t₅ h₅ => ⟨trivial, fun t₆ h₆ => ⟨trivial, ?_⟩⟩⟩
  obtain rfl := Option.some.inj h₄
  obtain rfl := Option.some.inj h₅
  obtain rfl := Option.some.inj h₆
  exact fun t₇ h₇ => ⟨rfl, fun t₈ h₈ => ⟨trivial, fun t₉ h₉ => ⟨trivial, trivial⟩⟩⟩

/-- The write to CPU 1 fails in `apply_epp`, and CPU 0 keeps the new EPP. -/
theorem epp_given_back_fails :
    ∃ s, run (mainStep {} 2) loaderStart [.cores fun _ => 0, .read true none, .read true none, .ok,
        .write (some performance) none, .write none none] = some s ∧
      s.pc = .exited 1 ∧ (s.cpus 0).eppValid = true ∧ s.epp 0 = performance ∧
      loaderStart.epp 0 = balanced ∧ performance ≠ balanced :=
  ⟨_, rfl, rfl, rfl, rfl, rfl, by decide⟩

end FakeBigLittle
