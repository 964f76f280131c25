import FakeBigLittle.Bpf.Proofs
import FakeBigLittle.Kernel.Spec
import FakeBigLittle.Slots

/-!
# What each event does

One inversion lemma per event of the kernel. Later proofs take the state after an event
from here and never unfold `step`.
-/

namespace FakeBigLittle

open Runs Slots

variable {T : Type} [DecidableEq T]

/-! ## The events, inverted -/

omit [DecidableEq T] in
theorem canWake_iff (s : Sys T) (p : T) :
    canWake s p = true ↔ (s.sched.taskCtx p).isSome ∧ s.runnable p = false := by
  unfold canWake
  simp

theorem step_attach {m : Machine T} {s t : Sys T} {p : T} (h : step m s (.attach p) = some t) :
    s.sched.taskCtx p = none ∧ t = adopt m s p := by
  unfold step at h
  simp only [Option.ite_none_left_eq_some, Bool.not_eq_true, Option.isSome_eq_false_iff,
    Option.isNone_iff_eq_none, Option.some.injEq] at h
  exact ⟨h.1, h.2.symm⟩

theorem step_fork {m : Machine T} {s t : Sys T} {parent child : T}
    (h : step m s (.fork parent child) = some t) :
    (s.sched.taskCtx parent).isSome ∧ s.sched.taskCtx child = none ∧
      t = adopt m { s with comm := Function.update s.comm child (s.comm parent) } child := by
  unfold step at h
  simp only [Option.ite_none_left_eq_some, Bool.or_eq_true, not_or, Bool.not_eq_true,
    Option.isSome_eq_false_iff, Option.isNone_iff_eq_none, Option.some.injEq] at h
  exact ⟨Option.isSome_iff_ne_none.mpr h.1.1, h.1.2, h.2.symm⟩

theorem step_exec {m : Machine T} {s t : Sys T} {p : T} {comm : Comm}
    (h : step m s (.exec p comm) = some t) :
    (s.sched.taskCtx p).isSome ∧ t = { s with comm := Function.update s.comm p comm } := by
  unfold step at h
  simp only [Option.ite_none_left_eq_some, Bool.not_eq_true, Option.isNone_eq_false_iff,
    Option.some.injEq] at h
  exact ⟨h.1, h.2.symm⟩

theorem step_enqueue {m : Machine T} {s t : Sys T} {p : T} {f : UInt64}
    (h : step m s (.enqueue p f) = some t) :
    canWake s p = true ∧ t = enter m s p f := by
  unfold step at h
  simp only [Option.ite_none_left_eq_some, Bool.not_eq_true', Bool.not_eq_false,
    Option.some.injEq] at h
  exact ⟨h.1, h.2.symm⟩

/-- The state after `select_cpu` put `p` on the local DSQ of the idle CPU `cpu`. -/
def directed (m : Machine T) (s : Sys T) (p : T) (cpu : Nat) (stats : Stat → Nat) : Sys T :=
  { wake s p with
    sched := { s.sched with
      stats := stats
      idle := Function.update s.sched.idle cpu false
      localDsq := Function.update s.sched.localDsq cpu
        (s.sched.localDsq cpu ++ [⟨p, domSlice m.toConfig (taskDom s.sched p), 0⟩]) } }

/-- A wakeup ends on the local DSQ of a CPU of the task's domain, or on that of a CPU of
the other domain, or in `enqueue`. -/
theorem step_wakeup {m : Machine T} {s t : Sys T} {p : T} {prevCpu : Int} {f : UInt64}
    (hdirect : s.sched.direct = []) (h : step m s (.wakeup p prevCpu f) = some t) :
    canWake s p = true ∧
      ((pinned m p = true ∧ t = enter m s p f) ∨
      (pinned m p = false ∧ ∃ cpu,
        pickedCpu m p (taskDom s.sched p) prevCpu s.sched.idle = some cpu ∧
        t = directed m s p cpu (bump s.sched.stats .direct 1)) ∨
      (pinned m p = false ∧ ∃ cpu,
        pickedCpu m p (taskDom s.sched p) prevCpu s.sched.idle = none ∧
        m.strictDomains = false ∧
        firstIdle m p (taskDom s.sched p).other s.sched.idle = some cpu ∧
        t = directed m s p cpu
          (bump (bump (bump s.sched.stats .noIdleInDom 1) .direct 1) .steal 1)) ∨
      (pinned m p = false ∧
        pickedCpu m p (taskDom s.sched p) prevCpu s.sched.idle = none ∧
        (m.strictDomains = false →
          firstIdle m p (taskDom s.sched p).other s.sched.idle = none) ∧
        t = enter m { s with sched := statAdd s.sched .noIdleInDom 1 } p f)) := by
  unfold step at h
  simp only [Option.ite_none_left_eq_some, Bool.not_eq_true', Bool.not_eq_false] at h
  refine ⟨h.1, ?_⟩
  have h := h.2
  cases hpin : pinned m p with
  | true =>
    rw [hpin, if_pos rfl, Option.some.injEq] at h
    exact Or.inl ⟨rfl, h.symm⟩
  | false =>
    right
    rw [hpin, if_neg (by simp)] at h
    rcases blsSelectCpu_cases m p prevCpu s.sched with
      ⟨cpu, hpick, heq⟩ | ⟨cpu, hpick, hstrict, hother, heq⟩ | ⟨hpick, hother, heq⟩
    · rw [heq] at h
      simp only [hdirect, List.nil_append, List.isEmpty_cons, Bool.false_eq_true, if_false,
        Option.some.injEq] at h
      refine Or.inl ⟨rfl, cpu, hpick, ?_⟩
      simp only [← h, directed, deliver, hdirect, setBit_some, Int.toNat_natCast]
    · rw [heq] at h
      simp only [hdirect, List.nil_append, List.isEmpty_cons, Bool.false_eq_true, if_false,
        Option.some.injEq] at h
      refine Or.inr (Or.inl ⟨rfl, cpu, hpick, hstrict, hother, ?_⟩)
      simp only [← h, directed, deliver, hdirect, setBit_some, Int.toNat_natCast]
    · rw [heq] at h
      dsimp only at h
      rw [if_pos (show s.sched.direct.isEmpty = true by rw [hdirect]; rfl),
        Option.some.injEq] at h
      exact Or.inr (Or.inr ⟨rfl, hpick, hother, h.symm⟩)

theorem step_dequeue {m : Machine T} {s t : Sys T} {p : T}
    (h : step m s (.dequeue p) = some t) :
    ∃ d, p ∈ (s.sched.dsq d).map (·.task) ∧ t = unqueue s p d := by
  have hmem : ∀ d, waitsOn s p d = true → p ∈ (s.sched.dsq d).map (·.task) := by
    intro d hd
    simpa [waitsOn] using hd
  simp only [step] at h
  split_ifs at h with hbig hlittle
  · exact ⟨.big, hmem _ hbig, (Option.some.inj h).symm⟩
  · exact ⟨.little, hmem _ hlittle, (Option.some.inj h).symm⟩

theorem step_expire {m : Machine T} {s t : Sys T} {cpu : Nat} {now f : UInt64}
    (h : step m s (.expire cpu now f) = some t) :
    ∃ p, s.running cpu = some p ∧ t = enter m (leave m s p cpu now) p f := by
  unfold step at h
  cases hrun : s.running cpu with
  | none => simp [hrun] at h
  | some p =>
    simp only [hrun, Option.some.injEq] at h
    exact ⟨p, rfl, h.symm⟩

theorem step_block {m : Machine T} {s t : Sys T} {cpu : Nat} {now : UInt64}
    (h : step m s (.block cpu now) = some t) :
    ∃ p, s.running cpu = some p ∧ t = leave m s p cpu now := by
  unfold step at h
  cases hrun : s.running cpu with
  | none => simp [hrun] at h
  | some p =>
    simp only [hrun, Option.some.injEq] at h
    exact ⟨p, rfl, h.symm⟩

theorem step_dispatch {m : Machine T} {s t : Sys T} {cpu : Nat}
    (h : step m s (.dispatch cpu) = some t) :
    cpu < m.nrCpus ∧ t = settle { s with sched := blsDispatch m cpu s.sched } cpu := by
  unfold step at h
  simp only [Option.ite_none_right_eq_some, Option.some.injEq] at h
  exact ⟨h.1, h.2.symm⟩

theorem step_run {m : Machine T} {s t : Sys T} {cpu : Nat} {now : UInt64}
    (h : step m s (.run cpu now) = some t) :
    s.running cpu = none ∧ ∃ q rest, s.sched.localDsq cpu = q :: rest ∧
      t = { s with
        sched := blsRunning q.task now (popLocal s.sched cpu rest)
        running := Function.update s.running cpu (some q.task) } := by
  unfold step at h
  cases hrun : s.running cpu with
  | some p => simp [hrun] at h
  | none =>
    cases hloc : s.sched.localDsq cpu with
    | nil => simp [hrun, hloc] at h
    | cons q rest =>
      simp only [hrun, hloc, Option.some.injEq] at h
      exact ⟨rfl, q, rest, rfl, h.symm⟩

/-! ## The shared DSQs -/

omit [DecidableEq T] in
theorem settle_dsq (s : Sys T) (cpu : Nat) : (settle s cpu).sched.dsq = s.sched.dsq := by
  unfold settle
  simp only
  split_ifs <;> rfl

omit [DecidableEq T] in
theorem settle_stats (s : Sys T) (cpu : Nat) : (settle s cpu).sched.stats = s.sched.stats := by
  unfold settle
  simp only
  split_ifs <;> rfl

/-- An event appends one task to a shared DSQ, takes one out, or leaves it alone. -/
theorem step_dsq {m : Machine T} {s t : Sys T} {e : Event T} (hdirect : s.sched.direct = [])
    (hstep : step m s e = some t) (d : Dom) :
    t.sched.dsq d = s.sched.dsq d ∨ (∃ q, t.sched.dsq d = s.sched.dsq d ++ [q]) ∨
      ∃ takes, t.sched.dsq d = (s.sched.dsq d).eraseP takes := by
  have henter : ∀ (p : T) (f : UInt64) (s' : Sched T), s'.dsq = s.sched.dsq →
      (blsEnqueue m p f s').dsq d = s.sched.dsq d ∨
        ∃ q, (blsEnqueue m p f s').dsq d = s.sched.dsq d ++ [q] := by
    intro p f s' hs'
    rw [blsEnqueue_eq, hs']
    rcases eq_or_ne d (taskDom s' p) with rfl | hne
    · exact Or.inr ⟨_, Function.update_self ..⟩
    · exact Or.inl (Function.update_of_ne hne ..)
  cases e with
  | attach p =>
    obtain ⟨-, rfl⟩ := step_attach hstep
    exact Or.inl (congrFun (blsInitTask_ctxOnly ..).dsq d)
  | fork parent child =>
    obtain ⟨-, -, rfl⟩ := step_fork hstep
    exact Or.inl (congrFun (blsInitTask_ctxOnly ..).dsq d)
  | exec p comm =>
    obtain ⟨-, rfl⟩ := step_exec hstep
    exact Or.inl rfl
  | wakeup p prevCpu f =>
    obtain ⟨-, ⟨-, rfl⟩ | ⟨-, cpu, -, rfl⟩ | ⟨-, cpu, -, -, -, rfl⟩ | ⟨-, -, -, rfl⟩⟩ :=
      step_wakeup hdirect hstep
    · exact (henter p f s.sched rfl).imp_right Or.inl
    · exact Or.inl rfl
    · exact Or.inl rfl
    · exact (henter p f (statAdd s.sched .noIdleInDom 1) rfl).imp_right Or.inl
  | enqueue p f =>
    obtain ⟨-, rfl⟩ := step_enqueue hstep
    exact (henter p f s.sched rfl).imp_right Or.inl
  | dequeue p =>
    obtain ⟨e, -, rfl⟩ := step_dequeue hstep
    rcases eq_or_ne d e with rfl | hne
    · exact Or.inr (Or.inr ⟨_, Function.update_self ..⟩)
    · exact Or.inl (Function.update_of_ne hne ..)
  | expire cpu now f =>
    obtain ⟨p, -, rfl⟩ := step_expire hstep
    exact (henter p f _ (blsStopping_ctxOnly ..).dsq).imp_right Or.inl
  | block cpu now =>
    obtain ⟨p, -, rfl⟩ := step_block hstep
    exact Or.inl (congrFun (blsStopping_ctxOnly ..).dsq d)
  | dispatch cpu =>
    obtain ⟨-, rfl⟩ := step_dispatch hstep
    rw [settle_dsq]
    rcases blsDispatch_dsq m cpu s.sched d with heq | heq
    · exact Or.inl heq
    · exact Or.inr (Or.inr ⟨_, heq⟩)
  | run cpu now =>
    obtain ⟨-, q, rest, -, rfl⟩ := step_run hstep
    exact Or.inl (congrFun (blsRunning_ctxOnly ..).dsq d)

end FakeBigLittle
