import FakeBigLittle.Kernel.Flat

/-!
# What a flat control is

What an experiment may expect of a scheduler that is its flat control: `--flat` gives it,
and the hybrid mode takes it away, whatever the partition.
-/

namespace FakeBigLittle

open Runs

/-- No task gets LITTLE, in any run of the kernel with this configuration. -/
def NoLittleTask (T : Type) [DecidableEq T] (c : Config) : Prop :=
  ∀ m : Machine T, m.toConfig = c → ∀ s, Reachable (step m) (Init m) s →
    ∀ p d, ctxDom s.sched p = some d → d = .big

def NoLittleQueue (T : Type) [DecidableEq T] (c : Config) : Prop :=
  ∀ m : Machine T, m.toConfig = c → ∀ s, Reachable (step m) (Init m) s → s.sched.dsq .little = []

/-- No CPU is treated as a LITTLE one. -/
def NoLittleCpu (c : Config) : Prop := ∀ cpu : Nat, cpu < c.nrCpus → domOfCpu c cpu = .big

structure FlatControl (T : Type) [DecidableEq T] (c : Config) : Prop where
  task : NoLittleTask T c
  queue : NoLittleQueue T c
  cpu : NoLittleCpu c

variable {T : Type} [DecidableEq T] {c : Config}

/-! ## The flat mode -/

theorem flatInv_reachable {m : Machine T} (hflat : IsFlat m.toConfig) {s : Sys T}
    (h : Reachable (step m) (Init m) s) : FlatInv m s :=
  inv_reachable (fun _ => flatInv_init) (fun _ _ _ h hstep => flatInv_step hflat h hstep) h

theorem flatControl_of_isFlat (hflat : IsFlat c) : FlatControl T c where
  task := by
    rintro m rfl s hs
    exact (flatInv_reachable hflat hs).flat.big
  queue := by
    rintro m rfl s hs
    exact (flatInv_reachable hflat hs).little
  cpu := fun cpu _ => domOfCpu_of_all_big c hflat.big cpu

/-! ## The hybrid mode -/

/-- No rule starts with the byte `b`. -/
def NoRuleFor (b : UInt8) (rules : Nat → CommRule) : Prop :=
  ∀ i, (rules i).len = 0 ∨ (rules i).comm 0 ≠ b

theorem classifyByComm_none {rules : Nat → CommRule} {comm : Comm}
    (h : NoRuleFor (comm.byte 0) rules) : classifyByComm rules (some comm) = none := by
  simp only [classifyByComm, Option.map_eq_none_iff, List.find?_eq_none]
  intro i _ hmatch
  simp only [Bool.and_eq_true, bne_iff_ne, ne_eq] at hmatch
  obtain ⟨⟨hlen, -⟩, hmatch⟩ := hmatch
  rcases h i with hzero | hne
  · exact hlen hzero
  · have hfirst := List.all_eq_true.mp hmatch 0 (by decide)
    simp only [Nat.le_zero, hlen, decide_false, Bool.false_or, beq_iff_eq] at hfirst
    exact hne hfirst.symm

/-- A machine with this configuration on which every task may run everywhere. -/
def freeMachine (T : Type) (c : Config) (hpos : 0 < c.nrCpus) (hle : c.nrCpus ≤ blsMaxCpus) :
    Machine T where
  toConfig := c
  nrCpus_le := hle
  cpusPtr := fun _ cpu => decide (cpu < c.nrCpus)
  cpusPtr_lt := fun _ _ h => of_decide_eq_true h
  cpusPtr_ne := fun _ => ⟨0, decide_eq_true hpos⟩

/-- Every CPU busy and every task called `sh`. -/
def shellStart (T : Type) : Sys T where
  sched := Sched.start fun _ => false
  comm := fun _ => shComm
  running := fun _ => none
  runnable := fun _ => false

omit [DecidableEq T] in
theorem shellStart_init (m : Machine T) : Init m (shellStart T) :=
  ⟨rfl, by simp [shellStart, Sched.start], fun _ => rfl, fun _ => rfl⟩

/-- The shell is LITTLE once the scheduler knows it. -/
theorem shell_little (hmode : c.classifyMode = .hybrid)
    (hrules : NoRuleFor (shComm.byte 0) c.commRules) (hpos : 0 < c.nrCpus)
    (hle : c.nrCpus ≤ blsMaxCpus) (p : T) :
    ctxDom (adopt (freeMachine T c hpos hle) (shellStart T) p).sched p = some .little := by
  have hnone := classifyByComm_none hrules
  rw [adopt, ctxDom_initTask]
  unfold initialDomain
  simp only [freeMachine, shellStart, hmode, hnone]

theorem not_noLittleTask (hmode : c.classifyMode = .hybrid)
    (hrules : NoRuleFor (shComm.byte 0) c.commRules) (hpos : 0 < c.nrCpus)
    (hle : c.nrCpus ≤ blsMaxCpus) [Inhabited T] : ¬ NoLittleTask T c := by
  intro h
  have hdom := shell_little hmode hrules hpos hle (default : T)
  have hbig := h (freeMachine T c hpos hle) rfl _
    ⟨shellStart T, [.attach default], shellStart_init _, rfl⟩ default .little hdom
  exact absurd hbig (by simp)

theorem not_noLittleQueue (hmode : c.classifyMode = .hybrid)
    (hrules : NoRuleFor (shComm.byte 0) c.commRules) (hpos : 0 < c.nrCpus)
    (hle : c.nrCpus ≤ blsMaxCpus) [Inhabited T] : ¬ NoLittleQueue T c := by
  intro h
  let m := freeMachine T c hpos hle
  let s := adopt m (shellStart T) (default : T)
  have hctx : ctxDom s.sched default = some .little := shell_little hmode hrules hpos hle default
  obtain ⟨tc, htc, hlittle⟩ := Option.map_eq_some_iff.mp hctx
  have hdom : taskDom s.sched default = .little := by
    unfold taskDom
    rw [htc]
    exact hlittle
  have hwake : canWake s default = true := by
    unfold canWake
    rw [htc]
    rfl
  have hreach : Reachable (step m) (Init m) (enter m s default 0) := by
    refine ⟨shellStart T, [.attach default, .enqueue default 0], shellStart_init m, ?_⟩
    apply run_cons_eq_some.mpr ⟨s, rfl, _⟩
    simp [run_cons, step, hwake]
  have hin :
      ⟨default, domSlice m.toConfig .little, 0⟩ ∈ (enter m s default 0).sched.dsq .little := by
    unfold enter
    rw [mem_blsEnqueue_dsq, hdom]
    exact Or.inr ⟨rfl, rfl⟩
  rw [h m rfl _ hreach] at hin
  simp at hin

end FakeBigLittle
