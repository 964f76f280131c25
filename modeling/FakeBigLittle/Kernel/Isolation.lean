import FakeBigLittle.Kernel.Placement

/-!
# Queue and class agree

The class of a task changes in `stopping` only, and a task that stops is on no queue. So a
task keeps the class that it was queued with for as long as it waits.
-/

namespace FakeBigLittle

open Runs Slots

variable {T : Type} [DecidableEq T]

/-- `tc->domain`, for a task that has storage. -/
def ctxDom (s : Sched T) (p : T) : Option Dom := (s.taskCtx p).map (·.domain)

omit [DecidableEq T] in
theorem ctxDom_taskDom {s : Sched T} {p : T} (h : (s.taskCtx p).isSome) :
    ctxDom s p = some (taskDom s p) := by
  obtain ⟨tc, htc⟩ := Option.isSome_iff_exists.mp h
  simp [ctxDom, taskDom, htc]

omit [DecidableEq T] in
theorem ctxDom_others {p : T} {s s' : Sched T} (h : CtxOnly p s s') {q : T} (hq : q ≠ p) :
    ctxDom s' q = ctxDom s q := by
  rw [ctxDom, h.others q hq, ctxDom]

omit [DecidableEq T] in
theorem ctxDom_placeOnly {s s' : Sched T} (h : PlaceOnly s s') (q : T) :
    ctxDom s' q = ctxDom s q := by
  rw [ctxDom, h.taskCtx, ctxDom]

theorem ctxDom_blsRunning (p : T) (now : UInt64) (s : Sched T) (q : T) :
    ctxDom (blsRunning p now s) q = ctxDom s q := by
  by_cases hq : q = p
  · subst hq
    cases htc : s.taskCtx q with
    | none => simp [blsRunning, htc]
    | some tc => simp [ctxDom, blsRunning_ctx q now s tc htc, htc]
  · exact ctxDom_others (blsRunning_ctxOnly p now s) hq

structure Agree (m : Machine T) (s : Sched T) : Prop where
  shared : ∀ d, ∀ q ∈ s.dsq d, ctxDom s q.task = some d
  strict : m.strictDomains = true → ∀ cpu : Nat, ∀ q ∈ s.localDsq cpu,
    ctxDom s q.task = some (domOfCpu m.toConfig cpu)
  noSteal : m.strictDomains = true → s.stats .steal = 0

/-! ## Each callback -/

omit [DecidableEq T] in
/-- Task storage may change for a task that is on no queue. -/
theorem agree_ctxOnly {m : Machine T} {s s' : Sched T} (h : Agree m s) {p : T}
    (hctx : CtxOnly p s s') (hsteal : s'.stats .steal = s.stats .steal)
    (hshared : ∀ d, ∀ q ∈ s.dsq d, q.task ≠ p)
    (hlocal : ∀ cpu, ∀ q ∈ s.localDsq cpu, q.task ≠ p) : Agree m s' := by
  refine ⟨fun d q hq => ?_, fun hs cpu q hq => ?_, fun hs => ?_⟩
  · rw [hctx.dsq] at hq
    rw [ctxDom_others hctx (hshared d q hq)]
    exact h.shared d q hq
  · rw [hctx.localDsq] at hq
    rw [ctxDom_others hctx (hlocal cpu q hq)]
    exact h.strict hs cpu q hq
  · rw [hsteal]
    exact h.noSteal hs

theorem agree_initTask {m : Machine T} {s : Sys T} {w : T → Option Place} (h : Agree m s.sched)
    (hw : Placed s w) {p : T} (hp : s.sched.taskCtx p = none) (comm : Option Comm) :
    Agree m (blsInitTask m p comm true s.sched).2 := by
  -- A task on a queue is runnable, and a runnable task has storage.
  have hnew : ∀ place, p ∉ slots s place := by
    intro place hmem
    have hrun := hw.runnable p
    rw [hw.holds.mem_iff.mp hmem] at hrun
    have := hw.known p hrun.symm
    simp [hp] at this
  apply agree_ctxOnly h (blsInitTask_ctxOnly m p comm true s.sched)
  · exact blsInitTask_stats m p comm true s.sched _ (by simp) (by simp)
  · exact fun d q hq hqp => hnew (.shared d) (hqp ▸ List.mem_map_of_mem hq)
  · exact fun cpu q hq hqp => hnew (.localDsq cpu) (hqp ▸ List.mem_map_of_mem hq)

theorem agree_stopping {m : Machine T} {s : Sys T} {w : T → Option Place} (h : Agree m s.sched)
    (hw : Placed s w) {p : T} {cpu : Nat} (hrun : s.running cpu = some p) (now : UInt64) :
    Agree m (blsStopping m p now cpu s.sched) := by
  apply agree_ctxOnly h (blsStopping_ctxOnly m p now cpu s.sched)
  · exact blsStopping_stats m p now cpu s.sched _ (by simp) (by simp) (by simp)
  · exact hw.not_queued hrun
  · exact hw.not_local hrun

omit [DecidableEq T] in
theorem agree_enqueue {m : Machine T} {s : Sched T} (h : Agree m s) {p : T}
    (hp : (s.taskCtx p).isSome) (f : UInt64) : Agree m (blsEnqueue m p f s) := by
  rw [blsEnqueue_eq]
  refine ⟨fun d q hq => ?_, h.strict, fun hs => ?_⟩
  · by_cases hd : d = taskDom s p
    · subst hd
      simp only [Function.update_self, List.mem_append, List.mem_singleton] at hq
      rcases hq with hq | rfl
      · exact h.shared _ q hq
      · exact ctxDom_taskDom hp
    · simp only [Function.update_of_ne hd] at hq
      exact h.shared d q hq
  · have hne : Stat.steal ≠ (if taskDom s p = .little then .dsqLittle else .dsqBig) := by
      split_ifs <;> simp
    simp only [bump_ne _ _ hne, bump_ne _ _ (show Stat.steal ≠ .enq by simp)]
    exact h.noSteal hs

omit [DecidableEq T] in
/-- A task that waits is moved to a CPU of its own class, unless it is stolen. -/
theorem agree_dispatch {m : Machine T} {s : Sched T} (h : Agree m s) (cpu : Nat) :
    Agree m (blsDispatch m cpu s) := by
  have hmoved : ∀ d q i, ((s.dsq d).find? fun q => m.cpusPtr q.task cpu) = some q →
      (m.strictDomains = true → d = domOfCpu m.toConfig cpu ∧ i ≠ .steal) →
      Agree m (moved m s cpu d q i) := by
    intro d q i hq hstrict
    refine ⟨fun e r hr => ?_, fun hs c r hr => ?_, fun hs => ?_⟩
    · by_cases he : e = d
      · subst he
        simp only [moved, Function.update_self] at hr
        exact h.shared e r (List.mem_of_mem_eraseP hr)
      · simp only [moved, Function.update_of_ne he] at hr
        exact h.shared e r hr
    · by_cases hc : c = cpu
      · subst hc
        simp only [moved, Function.update_self, List.mem_append, List.mem_singleton] at hr
        rcases hr with hr | rfl
        · exact h.strict hs c r hr
        · rw [← (hstrict hs).1]
          exact h.shared d r (List.mem_of_find?_eq_some hq)
      · simp only [moved, Function.update_of_ne hc] at hr
        exact h.strict hs c r hr
    · exact (bump_ne _ _ (hstrict hs).2.symm).trans (h.noSteal hs)
  rcases blsDispatch_cases m cpu s with ⟨q, hq, heq⟩ | ⟨q, -, hstrict, hq, heq⟩ | ⟨-, -, heq⟩
  · rw [heq]
    exact hmoved _ q _ hq fun _ => ⟨rfl, by simp⟩
  · rw [heq]
    exact hmoved _ q _ hq fun hs => absurd (hs.symm.trans hstrict) (by simp)
  · rw [heq]
    exact h

theorem agree_directed {m : Machine T} {s : Sys T} (h : Agree m s.sched) {p : T}
    (hp : (s.sched.taskCtx p).isSome) (cpu : Nat) (stats : Stat → Nat)
    (hstrict : m.strictDomains = true → domOfCpu m.toConfig cpu = taskDom s.sched p ∧
      stats .steal = s.sched.stats .steal) : Agree m (directed m s p cpu stats).sched := by
  refine ⟨h.shared, fun hs c q hq => ?_, fun hs => ?_⟩
  · by_cases hc : c = cpu
    · subst hc
      simp only [directed, Function.update_self, List.mem_append, List.mem_singleton] at hq
      rcases hq with hq | rfl
      · exact h.strict hs c q hq
      · rw [(hstrict hs).1]
        exact ctxDom_taskDom hp
    · simp only [directed, Function.update_of_ne hc] at hq
      exact h.strict hs c q hq
  · exact (hstrict hs).2.trans (h.noSteal hs)

omit [DecidableEq T] in
theorem agree_settle {m : Machine T} {s : Sys T} (h : Agree m s.sched) (cpu : Nat) :
    Agree m (settle s cpu).sched := by
  unfold settle
  simp only
  split_ifs <;> exact ⟨h.shared, h.strict, h.noSteal⟩

/-! ## Runs -/

theorem agree_step {m : Machine T} {s t : Sys T} {w : T → Option Place} {e : Event T}
    (hw : Placed s w) (h : Agree m s.sched) (hstep : step m s e = some t) :
    Agree m t.sched := by
  cases e with
  | attach p =>
    obtain ⟨hp, rfl⟩ := step_attach hstep
    exact agree_initTask h hw hp _
  | fork parent child =>
    obtain ⟨-, hp, rfl⟩ := step_fork hstep
    exact agree_initTask h hw hp _
  | exec p comm =>
    obtain ⟨-, rfl⟩ := step_exec hstep
    exact h
  | wakeup p prevCpu f =>
    obtain ⟨hwake, ⟨-, rfl⟩ | ⟨-, cpu, hpick, rfl⟩ | ⟨-, cpu, -, hstrict, -, rfl⟩ |
      ⟨-, -, -, rfl⟩⟩ := step_wakeup hw.direct hstep
    all_goals have hp := ((canWake_iff s p).mp hwake).1
    · exact agree_enqueue h hp f
    · exact agree_directed h hp cpu _ fun _ => ⟨(pickedCpu_dom hpick).1, by simp⟩
    · exact agree_directed h hp cpu _ fun hs => absurd (hs.symm.trans hstrict) (by simp)
    · have h' : Agree m (statAdd s.sched .noIdleInDom 1) :=
        ⟨h.shared, h.strict, fun hs => by simp [h.noSteal hs]⟩
      exact agree_enqueue h' hp f
  | enqueue p f =>
    obtain ⟨hwake, rfl⟩ := step_enqueue hstep
    exact agree_enqueue h ((canWake_iff s p).mp hwake).1 f
  | dequeue p =>
    obtain ⟨d, -, rfl⟩ := step_dequeue hstep
    refine ⟨fun e q hq => ?_, h.strict, h.noSteal⟩
    by_cases he : e = d
    · subst he
      simp only [unqueue, Function.update_self] at hq
      exact h.shared e q (List.mem_of_mem_eraseP hq)
    · simp only [unqueue, Function.update_of_ne he] at hq
      exact h.shared e q hq
  | expire cpu now f =>
    obtain ⟨p, hrun, rfl⟩ := step_expire hstep
    have hp : (s.sched.taskCtx p).isSome := by
      apply hw.known
      rw [← hw.runnable, hw.running hrun]
      rfl
    obtain ⟨tc, htc⟩ := Option.isSome_iff_exists.mp hp
    obtain ⟨tc', htc', -⟩ := blsStopping_ctx m p now cpu s.sched tc htc
    exact agree_enqueue (agree_stopping h hw hrun now) (by simp [htc']) f
  | block cpu now =>
    obtain ⟨p, hrun, rfl⟩ := step_block hstep
    exact agree_stopping h hw hrun now
  | dispatch cpu =>
    obtain ⟨-, rfl⟩ := step_dispatch hstep
    exact agree_settle (agree_dispatch h cpu) cpu
  | run cpu now =>
    obtain ⟨-, q, rest, hloc, rfl⟩ := step_run hstep
    have hctx := blsRunning_ctxOnly q.task now (popLocal s.sched cpu rest)
    refine ⟨fun d r hr => ?_, fun hs c r hr => ?_, fun hs => ?_⟩
    · rw [ctxDom_blsRunning]
      rw [hctx.dsq] at hr
      exact h.shared d r hr
    · rw [ctxDom_blsRunning]
      rw [hctx.localDsq, popLocal] at hr
      by_cases hc : c = cpu
      · subst hc
        simp only [Function.update_self] at hr
        exact h.strict hs c r (by rw [hloc]; exact List.mem_cons_of_mem _ hr)
      · simp only [Function.update_of_ne hc] at hr
        exact h.strict hs c r hr
    · rw [blsRunning_stats]
      exact h.noSteal hs

theorem agree_reachable {m : Machine T} {s : Sys T} (h : Reachable (step m) (Init m) s) :
    Agree m s.sched := by
  suffices hboth : (∃ w, Placed s w) ∧ Agree m s.sched from hboth.2
  apply inv_reachable (I := fun s => (∃ w, Placed s w) ∧ Agree m s.sched) _ _ h
  · intro s hs
    refine ⟨⟨_, placed_init hs⟩, ?_⟩
    rw [hs.sched]
    exact ⟨by simp [Sched.start], by simp [Sched.start], fun _ => rfl⟩
  · rintro s e t ⟨⟨w, hw⟩, hagree⟩ hstep
    obtain ⟨w', hw', -⟩ := placed_step hw hstep
    exact ⟨⟨w', hw'⟩, agree_step hw hagree hstep⟩

/-- **Queue and class agree.** A task on a shared DSQ has the DSQ's domain, and in strict
mode a task on the local DSQ of a CPU has that CPU's domain and nothing was ever stolen. -/
theorem queue_class_agreement (m : Machine T) (s : Sys T)
    (h : Reachable (step m) (Init m) s) :
    (∀ d, ∀ q ∈ s.sched.dsq d, ctxDom s.sched q.task = some d) ∧
      (m.strictDomains = true →
        (∀ cpu : Nat, ∀ q ∈ s.sched.localDsq cpu,
          ctxDom s.sched q.task = some (domOfCpu m.toConfig cpu)) ∧
        s.sched.stats .steal = 0) := by
  have hagree := agree_reachable h
  exact ⟨hagree.shared, fun hs => ⟨hagree.strict hs, hagree.noSteal hs⟩⟩

/-- Two tasks on two cores in strict mode: the second one waits. -/
theorem queue_class_agreement_pair :
    ∃ s, run (step (pairMachine .hybrid true)) pairStart
        [.attach 1, .attach 2, .wakeup 1 0 0, .wakeup 2 0 0] = some s ∧
      (∀ d, ∀ q ∈ s.sched.dsq d, ctxDom s.sched q.task = some d) ∧
      (∀ cpu : Nat, ∀ q ∈ s.sched.localDsq cpu,
        ctxDom s.sched q.task = some (domOfCpu (pairMachine .hybrid true).toConfig cpu)) ∧
      s.sched.stats .steal = 0 := by
  obtain ⟨s, hrun⟩ : ∃ s, run (step (pairMachine .hybrid true)) pairStart
      [.attach 1, .attach 2, .wakeup 1 0 0, .wakeup 2 0 0] = some s := ⟨_, rfl⟩
  obtain ⟨hshared, hstrict⟩ := queue_class_agreement _ s (reachable_pair hrun)
  exact ⟨s, hrun, hshared, hstrict rfl⟩

end FakeBigLittle
