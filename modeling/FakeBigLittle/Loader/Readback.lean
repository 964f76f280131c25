import FakeBigLittle.Loader.Proofs
import FakeBigLittle.Runs

/-!
# The readback of EPP

`report_partition` prints what `apply_epp` read back from each CPU. One flag guards both
reads of a CPU, and `save_epp` alone sets it when `apply_epp` is skipped.
-/

namespace FakeBigLittle

open Runs CString

/-- `read_epp_msr`: bits 24 to 31 of IA32_HWP_REQUEST, if `rdmsr` can read it. The events of
the loader carry what it returns. -/
def readEppMsr (reg : Option UInt64) : Option UInt8 :=
  reg.map fun v : UInt64 => (v >>> 24).toUInt8

/-! ## What a run reads and writes -/

inductive Access where
  /-- `save_epp` has read the MSR of `cpu` -/
  | save (cpu : Nat) (msr : Option UInt8)
  /-- `apply_epp` has written the EPP file of `cpu` and then read its MSR -/
  | apply (cpu : Nat) (text : Text) (msr : Option UInt8)
  deriving DecidableEq

def accessOf (o : Options) (s : Loader) (e : LoaderEvent) : List Access :=
  match s.pc, e with
  | .saveEpp cpu, .read _ msr => [.save cpu msr]
  | .applyEpp cpu, .write (some _) msr => [.apply cpu (o.want (s.cpus cpu)) msr]
  | _, _ => []

/-- What `save_epp` and `apply_epp` read and wrote in the run, in order. -/
def accesses (o : Options) (n : Nat) (s : Loader) (es : List LoaderEvent) : List Access :=
  trace (mainStep o n) (accessOf o) s es

/-- Every readback that was printed was read from that CPU, after the EPP name in the same
row was written to it. -/
def ReadsBack (t : Loader) (l : List Access) : Prop :=
  ∀ rows, Record.partition rows ∈ t.out → ∀ r ∈ rows, ∀ b, r.eppMsrAfter = some b →
    Access.apply r.cpu r.epp (some b) ∈ l

/-! ## The invariant -/

/-- `save_epp` has read the CPUs below `k`, and nothing was applied. -/
structure SaveLog (cpus : Nat → CpuState) (k : Nat) (l : List Access) : Prop where
  unapplied : ∀ cpu text msr, Access.apply cpu text msr ∉ l
  below : ∀ cpu msr, Access.save cpu msr ∈ l → cpu < k
  valid : ∀ cpu < k, (cpus cpu).msrValid = true ↔ ∃ b, Access.save cpu (some b) ∈ l

/-- `apply_epp` has written to the CPUs below `k`, and read back what is valid. -/
def ApplyLog (o : Options) (cpus : Nat → CpuState) (k : Nat) (l : List Access) : Prop :=
  ∀ cpu < k, (cpus cpu).msrValid = true →
    Access.apply cpu (o.want (cpus cpu)) (some (cpus cpu).eppMsrAfter) ∈ l

def Stage (o : Options) (n : Nat) (s : Loader) (l : List Access) : Prop :=
  match s.pc with
  | .resolve => l = []
  | .saveEpp k => k ≤ n ∧ SaveLog s.cpus k l
  | .applyEpp k => o.noEpp = false ∧ ApplyLog o s.cpus k l
  | .report => (o.noEpp = false → ApplyLog o s.cpus n l) ∧ (o.noEpp = true → SaveLog s.cpus n l)
  | _ => True

def Pc.beforeReport : Pc → Bool
  | .resolve | .saveEpp _ | .applyEpp _ | .report => true
  | _ => false

/-- What the rows of a record show, with the EPP step and without it. -/
structure RowsShow (o : Options) (l : List Access) (rows : List Row) : Prop where
  applied : o.noEpp = false → ∀ r ∈ rows, ∀ b, r.eppMsrAfter = some b →
    Access.apply r.cpu r.epp (some b) ∈ l
  unapplied : o.noEpp = true → ∀ cpu text msr, Access.apply cpu text msr ∉ l
  saved : o.noEpp = true →
    ((∃ r ∈ rows, ∃ b, r.eppMsrAfter = some b) ↔ ∃ cpu b, Access.save cpu (some b) ∈ l)

structure Logged (o : Options) (n : Nat) (s : Loader) (l : List Access) : Prop where
  stage : Stage o n s l
  unprinted : s.pc.beforeReport = true → ∀ rows, Record.partition rows ∉ s.out
  printed : ∀ rows, Record.partition rows ∈ s.out → RowsShow o l rows

section Steps

variable {o : Options} {n : Nat} {s t : Loader} {e : LoaderEvent} {l : List Access}

/-- Before the report there is only the stage to look after. -/
theorem logged_before (hpc : s.pc.beforeReport = true) (h : Logged o n s l) (hout : t.out = s.out)
    {l' : List Access} (hstage : Stage o n t l') : Logged o n t l' := by
  have hnone := h.unprinted hpc
  rw [← hout] at hnone
  exact ⟨hstage, fun _ => hnone, fun rows hrows => absurd hrows (hnone rows)⟩

/-- The report prints what the flags and the readbacks are by then. -/
theorem rowsShow_report (hstage : Stage o n s l) (hpc : s.pc = .report) :
    RowsShow o l ((List.range n).map (row o s.cpus)) := by
  simp only [Stage, hpc] at hstage
  refine ⟨fun hno => ?_, fun hno => (hstage.2 hno).unapplied, fun hno => ?_⟩
  · simp only [List.forall_mem_map, List.mem_range]
    intro cpu hcpu b hb
    simp only [row, Option.ite_none_right_eq_some, Option.some.injEq] at hb
    obtain ⟨hvalid, rfl⟩ := hb
    exact hstage.1 hno cpu hcpu hvalid
  · have hsave := hstage.2 hno
    constructor
    · rintro ⟨r, hr, b, hb⟩
      obtain ⟨cpu, hcpu, rfl⟩ := List.mem_map.mp hr
      simp only [row, Option.ite_none_right_eq_some] at hb
      exact ⟨cpu, (hsave.valid cpu (List.mem_range.mp hcpu)).mp hb.1⟩
    · rintro ⟨cpu, b, hb⟩
      have hcpu := hsave.below cpu _ hb
      have hvalid := (hsave.valid cpu hcpu).mpr ⟨b, hb⟩
      refine ⟨row o s.cpus cpu, List.mem_map_of_mem (List.mem_range.mpr hcpu),
        (s.cpus cpu).eppMsrAfter, ?_⟩
      simp [row, hvalid]

/-- After the report nothing is saved or applied any more. -/
theorem logged_after (hpc : t.pc.beforeReport = false)
    (hprinted : ∀ rows, Record.partition rows ∈ t.out → RowsShow o l rows) : Logged o n t l := by
  refine ⟨?_, fun hbefore => ?_, hprinted⟩
  · unfold Stage
    revert hpc
    cases t.pc <;> simp [Pc.beforeReport]
  · rw [hpc] at hbefore
    exact absurd hbefore (by decide)

/-- `save_epp` reads one more CPU. -/
theorem saveLog_read {cpus : Nat → CpuState} {cpu : Nat} (h : SaveLog cpus cpu l)
    (content : Option Text) (msr : Option UInt8) :
    SaveLog (Function.update cpus cpu ((cpus cpu).save content msr)) (cpu + 1)
      (l ++ [.save cpu msr]) := by
  refine ⟨fun i text m => ?_, fun i m hi => ?_, fun i hi => ?_⟩
  · simpa using h.unapplied i text m
  · rw [List.mem_append, List.mem_singleton] at hi
    rcases hi with hi | hi
    · have := h.below i m hi
      omega
    · obtain ⟨rfl, -⟩ := Access.save.inj hi
      exact Nat.lt_succ_self i
  · by_cases hne : i = cpu
    · subst hne
      have hnew : ∀ m, Access.save i m ∉ l := fun m hm => Nat.lt_irrefl i (h.below i m hm)
      cases msr <;> simp [CpuState.save, hnew]
    · have hold := h.valid i (by omega)
      simp [hold, hne]

theorem logged_save {cpu : Nat} (hpc : s.pc = .saveEpp cpu) (h : Logged o n s l)
    (hstep : saveStep o n s cpu e = some t) : Logged o n t (l ++ accessOf o s e) := by
  have hbefore : s.pc.beforeReport = true := by rw [hpc]; rfl
  have hstage := h.stage
  simp only [Stage, hpc] at hstage
  obtain ⟨hle, hsave⟩ := hstage
  obtain ⟨epp, msr, rfl, hcpu, rfl⟩ | ⟨rfl, hn, rfl⟩ := saveStep_cases hstep
  · have haccess : accessOf o s (.read epp msr) = [.save cpu msr] := by simp [accessOf, hpc]
    rw [haccess]
    exact logged_before hbefore h (by rfl) ⟨hcpu, saveLog_read hsave _ msr⟩
  · obtain rfl : cpu = n := by omega
    have haccess : accessOf o s .ok = [] := by simp [accessOf, hpc]
    rw [haccess, List.append_nil]
    refine logged_before hbefore h (by rfl) ?_
    cases hno : o.noEpp with
    | true => exact ⟨fun hfalse => by simp [hno] at hfalse, fun _ => hsave⟩
    | false => exact ⟨hno, fun i hi => absurd hi (Nat.not_lt_zero i)⟩

/-- `apply_epp` writes to one more CPU. The domain, and so the name, stays. -/
theorem applyLog_write {cpus : Nat → CpuState} {cpu : Nat} (h : ApplyLog o cpus cpu l)
    (msr : Option UInt8) :
    ApplyLog o (Function.update cpus cpu ((cpus cpu).reread msr)) (cpu + 1)
      (l ++ [.apply cpu (o.want (cpus cpu)) msr]) := by
  intro i hi hvalid
  rw [List.mem_append, List.mem_singleton]
  by_cases hne : i = cpu
  · subst hne
    simp only [Function.update_self, CpuState.reread, Bool.and_eq_true,
      Option.isSome_iff_exists] at hvalid ⊢
    obtain ⟨-, b, rfl⟩ := hvalid
    exact Or.inr rfl
  · rw [Function.update_of_ne hne] at hvalid ⊢
    exact Or.inl (h i (by omega) hvalid)

theorem logged_apply {cpu : Nat} (hpc : s.pc = .applyEpp cpu) (h : Logged o n s l)
    (hstep : applyStep o n s cpu e = some t) : Logged o n t (l ++ accessOf o s e) := by
  have hbefore : s.pc.beforeReport = true := by rw [hpc]; rfl
  have hstage := h.stage
  simp only [Stage, hpc] at hstage
  obtain ⟨hno, happly⟩ := hstage
  obtain ⟨msr, rfl, -, rfl⟩ | ⟨v, msr, rfl, -, rfl⟩ | ⟨rfl, hn, rfl⟩ := applyStep_cases hstep
  · have haccess : accessOf o s (.write none msr) = [] := by simp [accessOf, hpc]
    rw [haccess, List.append_nil]
    exact logged_after (by rfl) h.printed
  · have haccess : accessOf o s (.write (some v) msr) =
        [.apply cpu (o.want (s.cpus cpu)) msr] := by simp [accessOf, hpc]
    rw [haccess]
    exact logged_before hbefore h (by rfl) ⟨hno, applyLog_write happly msr⟩
  · have haccess : accessOf o s .ok = [] := by simp [accessOf, hpc]
    rw [haccess, List.append_nil]
    refine logged_before hbefore h (by rfl) ⟨fun _ i hi => happly i (by omega), fun hyes => ?_⟩
    rw [hno] at hyes
    exact absurd hyes (by decide)

/-- The calls behind the report print no second one. -/
theorem bpfMove_out (h : BpfMove o n s e t) :
    (s.pc = .report ∧ e = .ok ∧ t.pc.beforeReport = false ∧
      t.out = s.out ++ [Record.partition ((List.range n).map (row o s.cpus))]) ∨
    (accessOf o s e = [] ∧ t.pc.beforeReport = false ∧
      ∀ rows, Record.partition rows ∈ t.out → Record.partition rows ∈ s.out) := by
  cases h with
  | dryRun hpc _ =>
    refine Or.inl ⟨hpc, rfl, ?_, rfl⟩
    cases hp : o.persist <;> rfl
  | report hpc _ => exact Or.inl ⟨hpc, rfl, rfl, rfl⟩
  | bigRules hpc h | littleRules hpc h =>
    refine Or.inr ?_
    obtain ⟨rfl, -, -, -, rfl⟩ | ⟨rfl, -, rfl⟩ | ⟨rfl, -, rfl⟩ := rulesStep_cases h <;>
      exact ⟨by simp [accessOf, hpc], rfl, fun _ hrows => hrows⟩
  | polled hpc h =>
    refine Or.inr ?_
    obtain ⟨-, -, -, rfl, ⟨-, rfl⟩ | ⟨-, ⟨-, -, rfl⟩ | ⟨-, -, rfl⟩ | ⟨-, rfl⟩⟩⟩ :=
      pollStep_cases h <;> simp [accessOf, hpc, Pc.beforeReport, Loader.die]
  | detached hpc =>
    refine Or.inr ⟨by simp [accessOf, hpc], ?_, fun _ hrows => hrows⟩
    cases hp : o.persist <;> rfl
  | fails hpc =>
    refine Or.inr ⟨?_, rfl, fun _ hrows => hrows⟩
    rcases hpc with hpc | hpc | hpc <;> simp [accessOf, hpc]
  | _ => exact Or.inr ⟨by simp [accessOf, *], rfl, by simp [Loader.die]⟩

theorem logged_bpf (h : Logged o n s l) (hmove : BpfMove o n s e t) :
    Logged o n t (l ++ accessOf o s e) := by
  rcases bpfMove_out hmove with ⟨hpc, rfl, hafter, hout⟩ | ⟨haccess, hafter, hout⟩
  · have haccess : accessOf o s .ok = [] := by simp [accessOf, hpc]
    have hbefore : s.pc.beforeReport = true := by rw [hpc]; rfl
    rw [haccess, List.append_nil]
    refine logged_after hafter fun rows hrows => ?_
    rw [hout, List.mem_append, List.mem_singleton] at hrows
    rcases hrows with hrows | hrows
    · exact absurd hrows (h.unprinted hbefore rows)
    · obtain rfl := Record.partition.inj hrows
      exact rowsShow_report h.stage hpc
  · rw [haccess, List.append_nil]
    exact logged_after hafter fun rows hrows => h.printed rows (hout rows hrows)

theorem logged_step (h : Logged o n s l) (hstep : mainStep o n s e = some t) :
    Logged o n t (l ++ accessOf o s e) := by
  cases mainStep_move hstep with
  | signal sig hrun =>
    have haccess : accessOf o s (.signal sig) = [] := by
      unfold accessOf
      cases s.pc <;> rfl
    rw [haccess, List.append_nil]
    unfold signalStep
    split_ifs
    · exact ⟨h.stage, h.unprinted, h.printed⟩
    · exact logged_after (by rfl) h.printed
  | resolve hpc hstep =>
    have hbefore : s.pc.beforeReport = true := by rw [hpc]; rfl
    have haccess : accessOf o s e = [] := by simp [accessOf, hpc]
    have hnil := h.stage
    simp only [Stage, hpc] at hnil
    rw [haccess, List.append_nil]
    obtain ⟨coreIdOf, rfl, ⟨err, -, rfl⟩ | ⟨mode, cpus, -, rfl⟩⟩ := resolveStep_cases hstep
    · exact logged_after (by rfl) h.printed
    · refine logged_before hbefore h (by rfl) ⟨Nat.zero_le n, ?_⟩
      rw [hnil]
      exact ⟨by simp, by simp, fun i hi => absurd hi (Nat.not_lt_zero i)⟩
  | save cpu hpc hstep => exact logged_save hpc h hstep
  | apply cpu hpc hstep => exact logged_apply hpc h hstep
  | restore cpu code hpc hstep =>
    have haccess : accessOf o s e = [] := by simp [accessOf, hpc]
    rw [haccess, List.append_nil]
    obtain ⟨shown, msr, -, -, -, rfl⟩ | ⟨-, -, -, rfl⟩ | ⟨-, -, rfl⟩ :=
      restoreStep_cases hstep <;> exact logged_after (by rfl) h.printed
  | bpf hmove => exact logged_bpf h hmove

end Steps

/-! ## Runs -/

theorem logged_run {o : Options} {n : Nat} {s t : Loader} {es : List LoaderEvent}
    (hstart : s.Start) (hout : s.out = []) (hrun : run (mainStep o n) s es = some t) :
    Logged o n t (accesses o n s es) := by
  have hinit : Logged o n s [] := by
    refine ⟨?_, fun _ rows => by simp [hout], fun rows hrows => by simp [hout] at hrows⟩
    unfold Stage
    rw [hstart.pc]
  exact inv_trace (fun _ _ _ _ h _ hstep => logged_step h hstep) es hinit (stepsMeet_true ..)
    hrun

/-- **The readback is real when there was one.** Every number that the record shows as the
EPP after the step was read back from its CPU exactly when the EPP step was not skipped, or
nothing was printed, or `save_epp` could read no MSR. -/
theorem reads_back_iff (o : Options) (n : Nat) (s t : Loader) (hstart : s.Start)
    (hout : s.out = []) (es : List LoaderEvent) (hrun : run (mainStep o n) s es = some t) :
    ReadsBack t (accesses o n s es) ↔
      o.noEpp = false ∨ (∀ rows, Record.partition rows ∉ t.out) ∨
        ∀ cpu b, Access.save cpu (some b) ∉ accesses o n s es := by
  have h := logged_run hstart hout hrun
  cases hno : o.noEpp with
  | false => exact iff_of_true (fun rows hrows => (h.printed rows hrows).applied hno) (Or.inl rfl)
  | true =>
    constructor
    · intro hreads
      refine Or.inr (Classical.or_iff_not_imp_left.mpr fun hprinted cpu b hsave => ?_)
      obtain ⟨rows, hrows⟩ := not_forall_not.mp hprinted
      have hshow := h.printed rows hrows
      obtain ⟨r, hr, b', hb'⟩ := (hshow.saved hno).mpr ⟨cpu, b, hsave⟩
      exact hshow.unapplied hno _ _ _ (hreads rows hrows r hr b' hb')
    · rintro (hfalse | hnone | hunread) rows hrows r hr b hb
      · exact absurd hfalse (by decide)
      · exact absurd hrows (hnone rows)
      · obtain ⟨cpu, b', hsave⟩ := ((h.printed rows hrows).saved hno).mp ⟨r, hr, b, hb⟩
        exact absurd hsave (hunread cpu b')

-- IA32_HWP_REQUEST with an EPP of 128
def hwpRequest : UInt64 := 0x80002A08

-- A dry run on one CPU with `--no-epp`.
def noEppDry : Options := { noEpp := true, dryRun := true }

/-- With the EPP step the readback is real, also in a dry run. -/
theorem reads_back_iff_dry :
    ∃ t, run (mainStep { dryRun := true } 1) loaderStart
        [.cores fun _ => 0, .read true (readEppMsr (some hwpRequest)), .ok,
          .write (some balanced) (readEppMsr (some 0)), .ok, .ok] = some t ∧
      ReadsBack t (accesses { dryRun := true } 1 loaderStart
        [.cores fun _ => 0, .read true (readEppMsr (some hwpRequest)), .ok,
          .write (some balanced) (readEppMsr (some 0)), .ok, .ok]) :=
  ⟨_, rfl, (reads_back_iff { dryRun := true } 1 loaderStart _ loaderStart_start rfl
    [.cores fun _ => 0, .read true (readEppMsr (some hwpRequest)), .ok,
      .write (some balanced) (readEppMsr (some 0)), .ok, .ok] rfl).mpr (Or.inl rfl)⟩

/-- Without it the record shows 0 for a CPU whose register holds 128. -/
theorem reads_back_fails :
    ¬ ∀ (es : List LoaderEvent) (t : Loader), run (mainStep noEppDry 1) loaderStart es = some t →
      ReadsBack t (accesses noEppDry 1 loaderStart es) := by
  intro h
  have hreads := h [.cores fun _ => 0, .read true (readEppMsr (some hwpRequest)), .ok, .ok] _ rfl
  have hmem := hreads _ (List.mem_singleton_self _) _ (List.mem_singleton_self _) 0 (by decide)
  revert hmem
  decide

end FakeBigLittle
