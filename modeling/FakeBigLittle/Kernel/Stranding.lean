import FakeBigLittle.Bpf.Proofs
import FakeBigLittle.Kernel.Spec

/-!
# Tasks that no CPU will take

In strict mode a CPU takes tasks from the DSQ of its own domain only. The class of a task
chooses its DSQ and its affinity mask chooses its CPUs, and nothing ties the two together.
-/

namespace FakeBigLittle

open Runs

variable {T : Type}

/-- Some `dispatch` on `cpu` takes a task from the DSQ of `d`. -/
def Consumes (m : Machine T) (cpu : Nat) (d : Dom) : Prop :=
  ∃ s : Sched T, (blsDispatch m cpu s).dsq d ≠ s.dsq d

/-- Every task on a shared DSQ may run on a CPU that consumes from this DSQ. -/
def Served (m : Machine T) (s : Sched T) : Prop :=
  ∀ d, ∀ q ∈ s.dsq d, ∃ cpu, m.cpusPtr q.task cpu = true ∧ Consumes m cpu d

/-- A task is enqueued only while its class has a CPU in its mask. -/
def ClassServed (m : Machine T) (s : Sched T) : Call T → Prop
  | .enqueue p _ => ∃ cpu : Nat, m.cpusPtr p cpu = true ∧ domOfCpu m.toConfig cpu = taskDom s p
  | _ => True

/-! ## Who consumes from a DSQ -/

theorem blsDispatch_dsq_strict {m : Machine T} (hs : m.strictDomains = true) (cpu : Nat)
    (s : Sched T) {d : Dom} (hd : domOfCpu m.toConfig cpu ≠ d) :
    (blsDispatch m cpu s).dsq d = s.dsq d := by
  rcases blsDispatch_cases m cpu s with ⟨q, -, heq⟩ | ⟨q, -, hstrict, -, -⟩ | ⟨-, -, heq⟩
  · rw [heq]
    exact Function.update_of_ne hd.symm ..
  · rw [hs] at hstrict
    exact absurd hstrict (by simp)
  · rw [heq]

/-- In strict mode the consumers of a DSQ are the CPUs of its domain. -/
theorem consumes_strict {m : Machine T} (hs : m.strictDomains = true) {p : T} {cpu : Nat}
    (hp : m.cpusPtr p cpu = true) (d : Dom) :
    Consumes m cpu d ↔ domOfCpu m.toConfig cpu = d := by
  constructor
  · rintro ⟨s, hne⟩
    by_contra hd
    exact hne (blsDispatch_dsq_strict hs cpu s hd)
  · rintro rfl
    -- A DSQ that holds `p` alone is empty after the dispatch.
    refine ⟨{ (Sched.start fun _ => false) with dsq := fun _ => [⟨p, 0, 0⟩] }, ?_⟩
    simp [blsDispatch, scxBpfDsqMoveToLocal, hp, statAdd]

/-! ## What each call does to the shared DSQs -/

theorem blsSelectCpu_dsq (m : Machine T) (p : T) (prevCpu : Int) (s : Sched T) :
    (blsSelectCpu m p prevCpu s).2.dsq = s.dsq := by
  rcases blsSelectCpu_cases m p prevCpu s with
    ⟨cpu, -, heq⟩ | ⟨cpu, -, -, -, heq⟩ | ⟨-, -, heq⟩ <;> rw [heq]

variable [DecidableEq T]

/-- Only `enqueue` adds to a shared DSQ, and only `dispatch` takes from one. -/
theorem call_dsq {m : Machine T} {s t : Sched T} {c : Call T} (h : call m s c = some t) :
    (∃ p f, c = .enqueue p f ∧ t = blsEnqueue m p f s) ∨
    (∃ cpu, c = .dispatch cpu ∧ t = blsDispatch m cpu s) ∨
    ((∀ p f, c ≠ .enqueue p f) ∧ t.dsq = s.dsq) := by
  unfold call at h
  rcases c with ⟨p, comm, alloc⟩ | ⟨p, prevCpu⟩ | ⟨p, f⟩ | ⟨cpu⟩ | ⟨p, now⟩ | ⟨p, now, cpu⟩ <;>
    simp only [Option.some.injEq] at h <;> subst h
  · exact Or.inr (Or.inr ⟨by simp, (blsInitTask_ctxOnly m p comm alloc s).dsq⟩)
  · exact Or.inr (Or.inr ⟨by simp, blsSelectCpu_dsq m p prevCpu s⟩)
  · exact Or.inl ⟨p, f, rfl, rfl⟩
  · exact Or.inr (Or.inl ⟨cpu, rfl, rfl⟩)
  · exact Or.inr (Or.inr ⟨by simp, (blsRunning_ctxOnly p now s).dsq⟩)
  · exact Or.inr (Or.inr ⟨by simp, (blsStopping_ctxOnly m p now cpu s).dsq⟩)

theorem served_call {m : Machine T} (hs : m.strictDomains = true) {s t : Sched T} {c : Call T}
    (h : Served m s) (hc : ClassServed m s c) (hcall : call m s c = some t) : Served m t := by
  intro d q hq
  rcases call_dsq hcall with ⟨p, f, rfl, rfl⟩ | ⟨cpu, rfl, rfl⟩ | ⟨-, hdsq⟩
  · rcases mem_blsEnqueue_dsq.mp hq with hold | ⟨rfl, rfl⟩
    · exact h d q hold
    · obtain ⟨cpu, hmask, hdom⟩ := hc
      exact ⟨cpu, hmask, (consumes_strict hs hmask _).mpr hdom⟩
  · exact h d q (blsDispatch_dsq_subset hq)
  · exact h d q (hdsq ▸ hq)

theorem classServed_of_served {m : Machine T} (hs : m.strictDomains = true) {s t : Sched T}
    {c : Call T} (hcall : call m s c = some t) (h : Served m t) : ClassServed m s c := by
  rcases call_dsq hcall with ⟨p, f, rfl, rfl⟩ | ⟨cpu, rfl, rfl⟩ | ⟨hne, -⟩
  · obtain ⟨cpu, hmask, hcons⟩ := h _ _ (mem_blsEnqueue_dsq.mpr (Or.inr ⟨rfl, rfl⟩))
    exact ⟨cpu, hmask, (consumes_strict hs hmask _).mp hcons⟩
  · trivial
  · unfold ClassServed
    split
    · exact absurd rfl (hne _ _)
    · trivial

/-! ## Runs -/

/-- **Who is stranded.** In strict mode every waiting task is served throughout a run
exactly when every `enqueue` of the run finds a CPU of the task's class in its mask. -/
theorem strict_served_iff (m : Machine T) (hs : m.strictDomains = true) (idle : Nat → Bool)
    (cs : List (Call T)) :
    StatesMeet (call m) (Served m) (Sched.start idle) cs ↔
      StepsMeet (call m) (ClassServed m) (Sched.start idle) cs := by
  apply statesMeet_iff (A := fun _ _ => True) (I := fun _ => True)
  · intro s c t _ h _ hcall
    exact ⟨trivial, classServed_of_served hs hcall, fun hc => served_call hs h hc hcall⟩
  · trivial
  · exact fun d q hq => absurd hq (by simp [Sched.start])
  · exact stepsMeet_true ..

theorem strict_served_iff_pair :
    StatesMeet (call (pairMachine .hybrid true)) (Served (pairMachine .hybrid true))
        (Sched.start fun _ => false) [.initTask 1 (some shComm) true, .enqueue 1 0] ↔
      StepsMeet (call (pairMachine .hybrid true)) (ClassServed (pairMachine .hybrid true))
        (Sched.start fun _ => false) [.initTask 1 (some shComm) true, .enqueue 1 0] :=
  strict_served_iff (pairMachine .hybrid true) rfl _ _

/-- A LITTLE task that is pinned to the BIG core waits where no CPU of its mask looks. -/
theorem strict_served_fails :
    ∃ s, run (call (pairMachine .hybrid true)) (Sched.start fun _ => true)
        [.initTask 0 (some shComm) true, .enqueue 0 0] = some s ∧
      ¬ Served (pairMachine .hybrid true) s := by
  refine ⟨_, rfl, fun h => ?_⟩
  obtain ⟨cpu, hmask, hcons⟩ := h .little ⟨0, 3000000, 0⟩
    (mem_blsEnqueue_dsq.mpr (Or.inr ⟨rfl, rfl⟩))
  have hdom := (consumes_strict rfl hmask _).mp hcons
  have hcpu : cpu = 0 := by
    have := (Bool.and_eq_true_iff.mp hmask).2
    simpa using this
  subst hcpu
  exact absurd hdom (by decide)

/-- **Stranded for good.** No call of any callback takes a task off a DSQ whose domain has
no CPU in its mask. -/
theorem stranded_forever (m : Machine T) (hs : m.strictDomains = true) (s t : Sched T)
    (cs : List (Call T)) (d : Dom) (q : Queued T) (hq : q ∈ s.dsq d)
    (hno : ∀ cpu : Nat, m.cpusPtr q.task cpu = true → domOfCpu m.toConfig cpu ≠ d)
    (hrun : run (call m) s cs = some t) : q ∈ t.dsq d := by
  refine inv_run (I := fun s => q ∈ s.dsq d) (fun s c t hq hcall => ?_) cs hq hrun
  rcases call_dsq hcall with ⟨p, f, rfl, rfl⟩ | ⟨cpu, rfl, rfl⟩ | ⟨-, hdsq⟩
  · exact mem_blsEnqueue_dsq.mpr (Or.inl hq)
  · by_cases hd : domOfCpu m.toConfig cpu = d
    · -- The CPU looks at this DSQ, and may not run `q`.
      have hmask : ¬ m.cpusPtr q.task cpu = true := fun hmask => hno cpu hmask hd
      rcases blsDispatch_cases m cpu s with ⟨r, -, heq⟩ | ⟨r, -, hstrict, -, -⟩ | ⟨-, -, heq⟩
      · rw [heq]
        simp only [moved, hd, Function.update_self]
        exact (List.mem_eraseP_of_neg (p := fun q => m.cpusPtr q.task cpu) hmask).mpr hq
      · rw [hs] at hstrict
        exact absurd hstrict (by simp)
      · rwa [heq]
    · rwa [blsDispatch_dsq_strict hs cpu s hd]
  · rwa [hdsq]

end FakeBigLittle
