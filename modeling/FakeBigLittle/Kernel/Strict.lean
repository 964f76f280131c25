import FakeBigLittle.Kernel.Flat

/-!
# The strict partition

With `--strict` each domain should be a scheduler of its own. It is the reference scheduler
with one FIFO, on the CPUs and the tasks of the domain, and the other domain is not in it.
-/

namespace FakeBigLittle

open Runs Slots

variable {T : Type}

/-! ## One domain of the system -/

/-- `f` on the CPUs of `d`, and `x` on the others. -/
def restrict {α : Type} (m : Machine T) (d : Dom) (x : α) (f : Nat → α) : Nat → α :=
  fun cpu => if domOfCpu m.toConfig cpu = d then f cpu else x

/-- The machine with one slice length, that of `d`. -/
def half (m : Machine T) (d : Dom) : Machine T :=
  { m with sliceBigNs := domSlice m.toConfig d }

/-- What the domain `d` knows of the system: its CPUs, its queue, and its runnable tasks. -/
def view (m : Machine T) (d : Dom) (s : Sys T) : FifoSched T where
  known := fun p => (s.sched.taskCtx p).isSome
  running := restrict m d none s.running
  runnable := fun p => s.runnable p && decide (taskDom s.sched p = d)
  idle := restrict m d false s.sched.idle
  kicked := restrict m d false s.sched.kicked
  fifo := s.sched.dsq d
  localDsq := restrict m d [] s.sched.localDsq

/-- What an event is for the domain `d`. A slice expiry that reclassifies the task is a
block in the domain that it leaves and an arrival in the one that it joins. -/
def share [DecidableEq T] (m : Machine T) (d : Dom) (s : Sys T) (e : Event T) :
    List (Event T) :=
  match e with
  | .attach _ | .fork _ _ | .exec _ _ => [e]
  | .wakeup p _ _ | .enqueue p _ => if taskDom s.sched p = d then [e] else []
  | .dequeue p => if waitsOn s p d.other then [] else [e]
  | .block cpu _ | .dispatch cpu | .run cpu _ =>
    if domOfCpu m.toConfig cpu = d then [e] else []
  | .expire cpu now enqFlags =>
    match s.running cpu with
    | none => if domOfCpu m.toConfig cpu = d then [e] else []
    | some p =>
      let stays := decide (taskDom (blsStopping m p now cpu s.sched) p = d)
      if domOfCpu m.toConfig cpu = d then (if stays then [e] else [.block cpu now])
      else if stays then [.enqueue p enqFlags] else []

section Restrict

variable {α : Type} {m : Machine T} {d : Dom} {cpu : Nat}

theorem restrict_own (h : domOfCpu m.toConfig cpu = d) (x : α) (f : Nat → α) :
    restrict m d x f cpu = f cpu := if_pos h

theorem restrict_update_own (h : domOfCpu m.toConfig cpu = d) (x : α) (f : Nat → α) (v : α) :
    restrict m d x (Function.update f cpu v) = Function.update (restrict m d x f) cpu v := by
  funext c
  rcases eq_or_ne c cpu with rfl | hne
  · simp [restrict, h]
  · simp [restrict, hne]

theorem restrict_update_other (h : domOfCpu m.toConfig cpu ≠ d) (x : α) (f : Nat → α) (v : α) :
    restrict m d x (Function.update f cpu v) = restrict m d x f := by
  funext c
  rcases eq_or_ne c cpu with rfl | hne
  · simp [restrict, h]
  · simp [restrict, hne]

end Restrict

/-! ## Idle CPUs of one domain -/

theorem firstIdle_half (m : Machine T) (p : T) (d : Dom) (idle : Nat → Bool) :
    firstIdle m p d idle = lowestIdle (half m d) p (restrict m d false idle) := by
  unfold firstIdle lowestIdle
  congr 1
  funext i
  by_cases h : domOfCpu m.toConfig i = d
  · simp [restrict, half, h]
  · simp [restrict, half, h]

/-- The kick of an idle CPU of `d` is seen in `d`. -/
theorem setBit_half (m : Machine T) (p : T) (d : Dom) (idle mask : Nat → Bool) (b : Bool) :
    restrict m d false (setBit mask (firstIdle m p d idle) b) =
      setBit (restrict m d false mask) (firstIdle m p d idle) b := by
  cases hidle : firstIdle m p d idle with
  | none => rfl
  | some i => exact restrict_update_own (firstIdle_some hidle).2.1 ..

/-- And in no other domain. -/
theorem setBit_other (m : Machine T) (p : T) {d e : Dom} (hne : e ≠ d)
    (idle mask : Nat → Bool) (b : Bool) :
    restrict m d false (setBit mask (firstIdle m p e idle) b) = restrict m d false mask := by
  cases hidle : firstIdle m p e idle with
  | none => rfl
  | some i =>
    have hdom := (firstIdle_some hidle).2.1
    exact restrict_update_other (by rw [hdom]; exact hne) ..

theorem pickedCpu_half (m : Machine T) (p : T) (d : Dom) (prevCpu : Int) {idle : Nat → Bool}
    (hidle : ∀ cpu, idle cpu = true → cpu < m.nrCpus) :
    pickedCpu m p d prevCpu idle = wakeCpu (half m d) p prevCpu (restrict m d false idle) := by
  unfold pickedCpu wakeCpu
  rw [firstIdle_half]
  -- An idle CPU is below `nr_cpus`, and in the view it is one of the domain.
  refine if_congr ⟨fun h => ⟨h.1, ?_⟩, fun h => ?_⟩ rfl rfl
  · have hdom : domOfCpu m.toConfig prevCpu.toNat = d := by
      rw [Int.toNat_of_nonneg h.1]
      exact h.2.2.1
    rw [restrict_own hdom]
    exact h.2.2.2
  · obtain ⟨h0, hbit⟩ := h
    unfold restrict at hbit
    rw [Int.toNat_of_nonneg h0] at hbit
    split_ifs at hbit with hdom
    · have := hidle _ hbit
      have := m.nrCpus_le
      exact ⟨h0, by omega, hdom, hbit⟩

variable [DecidableEq T]

/-! ## What each step keeps -/

structure StrictInv (m : Machine T) (s : Sys T) : Prop where
  placed : ∃ w, Placed s w
  agree : Agree m s.sched
  idle_lt : ∀ cpu, s.sched.idle cpu = true → cpu < m.nrCpus
  /-- a task runs on a CPU of its own domain -/
  running : ∀ cpu p, s.running cpu = some p →
    ctxDom s.sched p = some (domOfCpu m.toConfig cpu)

omit [DecidableEq T] in
theorem taskDom_of_ctxDom {s : Sched T} {p : T} {d : Dom} (h : ctxDom s p = some d) :
    taskDom s p = d := by
  unfold ctxDom at h
  unfold taskDom
  cases htc : s.taskCtx p with
  | none => simp [htc] at h
  | some tc => simpa [htc] using h

omit [DecidableEq T] in
theorem taskDom_others {p : T} {s s' : Sched T} (h : CtxOnly p s s') {q : T} (hq : q ≠ p) :
    taskDom s' q = taskDom s q := by
  unfold taskDom
  rw [h.others q hq]

omit [DecidableEq T] in
theorem idle_lt_enqueue {m : Machine T} {s : Sched T}
    (h : ∀ cpu, s.idle cpu = true → cpu < m.nrCpus) (p : T) (f : UInt64) :
    ∀ cpu, (blsEnqueue m p f s).idle cpu = true → cpu < m.nrCpus := by
  rw [blsEnqueue_eq]
  exact fun cpu hcpu => h cpu (setBit_false hcpu).1

/-- The idle mask holds CPUs of the machine only. -/
theorem idle_lt_step {m : Machine T} {s t : Sys T} {e : Event T} (hdirect : s.sched.direct = [])
    (h : ∀ cpu, s.sched.idle cpu = true → cpu < m.nrCpus) (hstep : step m s e = some t) :
    ∀ cpu, t.sched.idle cpu = true → cpu < m.nrCpus := by
  cases e with
  | attach p =>
    obtain ⟨-, rfl⟩ := step_attach hstep
    have hctx := blsInitTask_ctxOnly m p (some (s.comm p)) true s.sched
    exact fun cpu hcpu => h cpu (hctx.idle ▸ hcpu)
  | fork parent child =>
    obtain ⟨-, -, rfl⟩ := step_fork hstep
    intro cpu hcpu
    simp only [adopt, (blsInitTask_ctxOnly ..).idle] at hcpu
    exact h cpu hcpu
  | exec p comm =>
    obtain ⟨-, rfl⟩ := step_exec hstep
    exact h
  | wakeup p prevCpu f =>
    obtain ⟨-, ⟨-, rfl⟩ | ⟨-, c, -, rfl⟩ | ⟨-, c, -, -, -, rfl⟩ | ⟨-, -, -, rfl⟩⟩ :=
      step_wakeup hdirect hstep
    · exact idle_lt_enqueue h p f
    · exact fun cpu hcpu => h cpu (@setBit_false _ (some c) _ hcpu).1
    · exact fun cpu hcpu => h cpu (@setBit_false _ (some c) _ hcpu).1
    · exact idle_lt_enqueue (s := statAdd s.sched .noIdleInDom 1) h p f
  | enqueue p f =>
    obtain ⟨-, rfl⟩ := step_enqueue hstep
    exact idle_lt_enqueue h p f
  | dequeue p =>
    obtain ⟨d, -, rfl⟩ := step_dequeue hstep
    exact h
  | expire cpu now f =>
    obtain ⟨p, -, rfl⟩ := step_expire hstep
    have hctx := blsStopping_ctxOnly m p now cpu s.sched
    exact idle_lt_enqueue (fun c hc => h c (hctx.idle ▸ hc)) p f
  | block cpu now =>
    obtain ⟨p, -, rfl⟩ := step_block hstep
    have hctx := blsStopping_ctxOnly m p now cpu s.sched
    exact fun c hc => h c (hctx.idle ▸ hc)
  | dispatch cpu =>
    obtain ⟨hcpu, rfl⟩ := step_dispatch hstep
    have hsame : (blsDispatch m cpu s.sched).idle = s.sched.idle := by
      rcases blsDispatch_cases m cpu s.sched with ⟨q, -, heq⟩ | ⟨q, -, -, -, heq⟩ | ⟨-, -, heq⟩
      · rw [heq]
        rfl
      · rw [heq]
        rfl
      · rw [heq]
    intro c hc
    unfold settle at hc
    simp only [hsame] at hc
    split_ifs at hc
    · rcases eq_or_ne c cpu with rfl | hne
      · exact hcpu
      · exact h c (by simpa [hne] using hc)
    · exact h c hc
  | run cpu now =>
    obtain ⟨-, q, queue, -, rfl⟩ := step_run hstep
    intro c hc
    rw [(blsRunning_ctxOnly ..).idle] at hc
    exact h c (@setBit_false _ (some cpu) _ hc).1

omit [DecidableEq T] in
/-- A task that is on a CPU is not touched by what happens to another task. -/
theorem running_ctxOnly {m : Machine T} {s : Sys T} {s' : Sched T} {p : T}
    (h : ∀ cpu q, s.running cpu = some q → ctxDom s.sched q = some (domOfCpu m.toConfig cpu))
    (hctx : CtxOnly p s.sched s') {cpu : Nat} {q : T} (hq : s.running cpu = some q)
    (hne : q ≠ p) : ctxDom s' q = some (domOfCpu m.toConfig cpu) := by
  rw [ctxDom_others hctx hne]
  exact h cpu q hq

omit [DecidableEq T] in
theorem Placed.running_unique {s : Sys T} {w : T → Option Place} (hw : Placed s w) {p : T}
    {cpu c : Nat} (hp : s.running cpu = some p) (hc : s.running c = some p) : c = cpu := by
  have hsame := (hw.running hc).symm.trans (hw.running hp)
  simpa using hsame

omit [DecidableEq T] in
theorem Placed.known_running {s : Sys T} {w : T → Option Place} (hw : Placed s w) {p : T}
    {cpu : Nat} (hp : s.running cpu = some p) :
    s.runnable p = true ∧ (s.sched.taskCtx p).isSome := by
  have hrun : s.runnable p = true := by
    rw [← hw.runnable, hw.running hp]
    rfl
  exact ⟨hrun, hw.known p hrun⟩

omit [DecidableEq T] in
theorem update_none_eq_some {f : Nat → Option T} {cpu c : Nat} {q : T}
    (h : Function.update f cpu none c = some q) : c ≠ cpu ∧ f c = some q := by
  rcases eq_or_ne c cpu with rfl | hne
  · simp at h
  · exact ⟨hne, by rwa [Function.update_of_ne hne] at h⟩

omit [DecidableEq T] in
theorem settle_running (s : Sys T) (cpu : Nat) : (settle s cpu).running = s.running := by
  unfold settle
  simp only
  split_ifs <;> rfl

theorem strictInv_step {m : Machine T} (hstrict : m.strictDomains = true) {s t : Sys T}
    {e : Event T} (h : StrictInv m s) (hstep : step m s e = some t) : StrictInv m t := by
  obtain ⟨⟨w, hw⟩, hagree, hidle, hrunning⟩ := h
  obtain ⟨w', hw', -⟩ := placed_step hw hstep
  refine ⟨⟨w', hw'⟩, agree_step hw hagree hstep, idle_lt_step hw.direct hidle hstep, ?_⟩
  -- A task without storage is on no CPU.
  have hnew : ∀ p, s.sched.taskCtx p = none → ∀ cpu q, s.running cpu = some q → q ≠ p := by
    rintro p hp cpu q hq rfl
    have hknown := (hw.known_running hq).2
    rw [hp] at hknown
    exact absurd hknown (by simp)
  cases e with
  | attach p =>
    obtain ⟨hp, rfl⟩ := step_attach hstep
    intro cpu q hq
    exact running_ctxOnly hrunning (blsInitTask_ctxOnly ..) hq (hnew p hp cpu q hq)
  | fork parent child =>
    obtain ⟨-, hp, rfl⟩ := step_fork hstep
    intro cpu q hq
    exact running_ctxOnly hrunning (blsInitTask_ctxOnly ..) hq (hnew child hp cpu q hq)
  | exec p comm =>
    obtain ⟨-, rfl⟩ := step_exec hstep
    exact hrunning
  | wakeup p prevCpu f =>
    obtain ⟨-, ⟨-, rfl⟩ | ⟨-, c, -, rfl⟩ | ⟨-, c, -, -, -, rfl⟩ | ⟨-, -, -, rfl⟩⟩ :=
      step_wakeup hw.direct hstep
    · intro cpu q hq
      exact (ctxDom_placeOnly (blsEnqueue_placeOnly ..) q).trans (hrunning cpu q hq)
    · exact hrunning
    · exact hrunning
    · intro cpu q hq
      exact (ctxDom_placeOnly (blsEnqueue_placeOnly ..) q).trans (hrunning cpu q hq)
  | enqueue p f =>
    obtain ⟨-, rfl⟩ := step_enqueue hstep
    intro cpu q hq
    exact (ctxDom_placeOnly (blsEnqueue_placeOnly ..) q).trans (hrunning cpu q hq)
  | dequeue p =>
    obtain ⟨d, -, rfl⟩ := step_dequeue hstep
    exact hrunning
  | expire cpu now f =>
    obtain ⟨p, hrun, rfl⟩ := step_expire hstep
    intro c q hq
    obtain ⟨hne, hsame⟩ := update_none_eq_some hq
    refine (ctxDom_placeOnly (blsEnqueue_placeOnly ..) q).trans ?_
    refine running_ctxOnly hrunning (blsStopping_ctxOnly ..) hsame ?_
    rintro rfl
    exact hne (hw.running_unique hrun hsame)
  | block cpu now =>
    obtain ⟨p, hrun, rfl⟩ := step_block hstep
    intro c q hq
    obtain ⟨hne, hsame⟩ := update_none_eq_some hq
    refine running_ctxOnly hrunning (blsStopping_ctxOnly ..) hsame ?_
    rintro rfl
    exact hne (hw.running_unique hrun hsame)
  | dispatch cpu =>
    obtain ⟨-, rfl⟩ := step_dispatch hstep
    intro c q hq
    rw [ctxDom_settle, ctxDom_placeOnly (blsDispatch_placeOnly ..)]
    apply hrunning
    simpa only [settle_running] using hq
  | run cpu now =>
    obtain ⟨-, q, queue, hloc, rfl⟩ := step_run hstep
    intro c r hr
    rw [ctxDom_blsRunning]
    rcases eq_or_ne c cpu with rfl | hne
    · simp only [Function.update_self, Option.some.injEq] at hr
      subst hr
      exact hagree.strict hstrict c q (by simp [hloc])
    · simp only [Function.update_of_ne hne] at hr
      exact hrunning c r hr

omit [DecidableEq T] in
theorem strictInv_init {m : Machine T} {s : Sys T} (h : Init m s) : StrictInv m s := by
  refine ⟨⟨_, placed_init h⟩, ?_, h.idle_lt, fun cpu p hp => ?_⟩
  · rw [h.sched]
    exact ⟨by simp [Sched.start], by simp [Sched.start], fun _ => rfl⟩
  · rw [h.running] at hp
    exact absurd hp (by simp)

/-! ## The views of one event -/

theorem view_adopt {m : Machine T} {s : Sys T} {p : T} (hp : s.runnable p = false) (d : Dom) :
    view m d (adopt m s p) =
      { view m d s with known := Function.update (view m d s).known p true } := by
  have hctx := blsInitTask_ctxOnly m p (some (s.comm p)) true s.sched
  obtain ⟨tc, htc, -⟩ := blsInitTask_ctx m p (some (s.comm p)) s.sched
  unfold view adopt
  simp only [hctx.idle, hctx.kicked, hctx.dsq, hctx.localDsq, FifoSched.mk.injEq, and_true,
    true_and]
  constructor
  · funext q
    rcases eq_or_ne q p with rfl | hne
    · simp [htc]
    · simp [hne, hctx.others q hne]
  · funext q
    rcases eq_or_ne q p with rfl | hne
    · simp [hp]
    · rw [taskDom_others hctx hne]

/-- A task that enters the queues is pushed in its own domain. -/
theorem view_enter_own (m : Machine T) (s : Sys T) (p : T) (f : UInt64) {d : Dom}
    (hd : taskDom s.sched p = d) :
    view m d (enter m s p f) = push (half m d) (view m d s) p f := by
  subst hd
  have hdom : ∀ q, taskDom (blsEnqueue m p f s.sched) q = taskDom s.sched q := by
    intro q
    unfold taskDom
    rw [(blsEnqueue_placeOnly ..).taskCtx]
  unfold view enter push
  simp only [hdom]
  rw [blsEnqueue_eq]
  have hhalf := firstIdle_half m p (taskDom s.sched p) s.sched.idle
  simp only [setBit_half, ← hhalf, Function.update_self, FifoSched.mk.injEq, true_and, and_true]
  refine ⟨rfl, ?_, rfl⟩
  funext q
  rcases eq_or_ne q p with rfl | hne
  · simp [wake]
  · simp [wake, hne]

/-- The other domain does not see it. -/
theorem view_enter_other (m : Machine T) (s : Sys T) (p : T) (f : UInt64) {d : Dom}
    (hd : taskDom s.sched p ≠ d) : view m d (enter m s p f) = view m d s := by
  have hdom : ∀ q, taskDom (blsEnqueue m p f s.sched) q = taskDom s.sched q := by
    intro q
    unfold taskDom
    rw [(blsEnqueue_placeOnly ..).taskCtx]
  unfold view enter
  simp only [hdom]
  rw [blsEnqueue_eq]
  simp only [setBit_other m p hd, Function.update_of_ne hd.symm, FifoSched.mk.injEq, true_and,
    and_true]
  refine ⟨rfl, ?_⟩
  funext q
  rcases eq_or_ne q p with rfl | hne
  · simp [hd]
  · simp [wake, hne]

/-- A task that leaves a CPU of `d` vacates it there. -/
theorem view_leave_own (m : Machine T) (s : Sys T) (p : T) {cpu : Nat} (now : UInt64) {d : Dom}
    (hd : domOfCpu m.toConfig cpu = d) :
    view m d (leave m s p cpu now) = vacate (view m d s) p cpu := by
  have hctx := blsStopping_ctxOnly m p now cpu s.sched
  unfold view leave vacate
  simp only [hctx.idle, hctx.kicked, hctx.dsq, hctx.localDsq, blsStopping_isSome,
    restrict_update_own hd, FifoSched.mk.injEq, true_and, and_true]
  funext q
  rcases eq_or_ne q p with rfl | hne
  · simp
  · simp [hne, taskDom_others hctx hne]

theorem view_leave_other {m : Machine T} {s : Sys T} {p : T} {cpu : Nat} (now : UInt64)
    {d : Dom} (hp : taskDom s.sched p = domOfCpu m.toConfig cpu)
    (hd : domOfCpu m.toConfig cpu ≠ d) : view m d (leave m s p cpu now) = view m d s := by
  have hctx := blsStopping_ctxOnly m p now cpu s.sched
  unfold view leave
  simp only [hctx.idle, hctx.kicked, hctx.dsq, hctx.localDsq, blsStopping_isSome,
    restrict_update_other hd, FifoSched.mk.injEq, true_and, and_true]
  funext q
  rcases eq_or_ne q p with rfl | hne
  · simp [hp, hd]
  · simp [hne, taskDom_others hctx hne]

theorem view_directed_own (m : Machine T) (s : Sys T) (p : T) {cpu : Nat} (stats : Stat → Nat)
    {d : Dom} (hp : taskDom s.sched p = d) (hd : domOfCpu m.toConfig cpu = d) :
    view m d (directed m s p cpu stats) = runOn (half m d) (view m d s) p cpu := by
  have hdom : ∀ q, taskDom (directed m s p cpu stats).sched q = taskDom s.sched q :=
    fun _ => rfl
  unfold view runOn
  simp only [hdom]
  simp only [directed, restrict_update_own hd, restrict_own hd, hp, FifoSched.mk.injEq, true_and]
  refine ⟨rfl, ?_, rfl⟩
  funext q
  rcases eq_or_ne q p with rfl | hne
  · simp [wake, hp]
  · simp [wake, hne]

theorem view_directed_other (m : Machine T) (s : Sys T) (p : T) {cpu : Nat}
    (stats : Stat → Nat) {d : Dom} (hp : taskDom s.sched p ≠ d)
    (hd : domOfCpu m.toConfig cpu ≠ d) :
    view m d (directed m s p cpu stats) = view m d s := by
  have hdom : ∀ q, taskDom (directed m s p cpu stats).sched q = taskDom s.sched q :=
    fun _ => rfl
  unfold view
  simp only [hdom]
  simp only [directed, restrict_update_other hd, FifoSched.mk.injEq, true_and]
  refine ⟨rfl, ?_, trivial⟩
  funext q
  rcases eq_or_ne q p with rfl | hne
  · simp [hp]
  · simp [wake, hne]

omit [DecidableEq T] in
theorem view_dispatch_own {m : Machine T} (hstrict : m.strictDomains = true) (s : Sys T)
    {cpu : Nat} {d : Dom} (hd : domOfCpu m.toConfig cpu = d) :
    view m d { s with sched := blsDispatch m cpu s.sched } =
      pull (half m d) (view m d s) cpu := by
  unfold pull
  rcases blsDispatch_cases m cpu s.sched with ⟨q, hq, heq⟩ | ⟨q, -, hno, -⟩ | ⟨hq, -, heq⟩
  · rw [hd] at hq heq
    have hmoved : view m d { s with sched := moved m s.sched cpu d q .localHit } =
        { view m d s with
          fifo := (s.sched.dsq d).eraseP fun q => m.cpusPtr q.task cpu
          localDsq := Function.update (view m d s).localDsq cpu
            ((view m d s).localDsq cpu ++ [q]) } := by
      simp only [view, moved, Function.update_self, restrict_update_own hd, restrict_own hd]
      rfl
    rw [heq, hmoved]
    simp only [view, half, hq]
  · exact absurd (hstrict.symm.trans hno) (by simp)
  · rw [hd] at hq
    rw [heq]
    simp only [view, half, hq]

omit [DecidableEq T] in
theorem view_dispatch_other {m : Machine T} (hstrict : m.strictDomains = true) (s : Sys T)
    {cpu : Nat} {d : Dom} (hd : domOfCpu m.toConfig cpu ≠ d) :
    view m d { s with sched := blsDispatch m cpu s.sched } = view m d s := by
  rcases blsDispatch_cases m cpu s.sched with ⟨q, hq, heq⟩ | ⟨q, -, hno, -⟩ | ⟨hq, -, heq⟩
  · rw [heq]
    simp only [view, moved, Function.update_of_ne hd.symm, restrict_update_other hd]
    rfl
  · exact absurd (hstrict.symm.trans hno) (by simp)
  · rw [heq]

omit [DecidableEq T] in
theorem view_settle_own (m : Machine T) (s : Sys T) {cpu : Nat} {d : Dom}
    (hd : domOfCpu m.toConfig cpu = d) : view m d (settle s cpu) = rest (view m d s) cpu := by
  unfold settle rest view
  simp only [restrict_own hd]
  split_ifs with hfree
  · simp only [restrict_update_own hd]
    rfl
  · simp only [restrict_update_own hd]
    rfl

omit [DecidableEq T] in
theorem view_settle_other (m : Machine T) (s : Sys T) {cpu : Nat} {d : Dom}
    (hd : domOfCpu m.toConfig cpu ≠ d) : view m d (settle s cpu) = view m d s := by
  unfold settle view
  split_ifs with hfree
  · simp only [restrict_update_other hd]
    rfl
  · simp only [restrict_update_other hd]
    rfl

theorem taskDom_blsRunning (p : T) (now : UInt64) (s : Sched T) (q : T) :
    taskDom (blsRunning p now s) q = taskDom s q := by
  have hctx := ctxDom_blsRunning p now s q
  unfold ctxDom at hctx
  unfold taskDom
  cases htc : s.taskCtx q <;> cases htc' : (blsRunning p now s).taskCtx q <;> simp_all

/-- A CPU that starts a task of its local DSQ, in its own domain. -/
theorem view_run_own (m : Machine T) (s : Sys T) {cpu : Nat} (now : UInt64) (q : Queued T)
    (queue : List (Queued T)) {d : Dom} (hd : domOfCpu m.toConfig cpu = d) :
    view m d { s with
        sched := blsRunning q.task now (popLocal s.sched cpu queue)
        running := Function.update s.running cpu (some q.task) } =
      { view m d s with
        running := Function.update (view m d s).running cpu (some q.task)
        localDsq := Function.update (view m d s).localDsq cpu queue
        idle := Function.update (view m d s).idle cpu false
        kicked := Function.update (view m d s).kicked cpu false } := by
  have hctx := blsRunning_ctxOnly q.task now (popLocal s.sched cpu queue)
  simp only [view, hctx.idle, hctx.kicked, hctx.dsq, hctx.localDsq, blsRunning_isSome,
    taskDom_blsRunning]
  simp only [popLocal, restrict_update_own hd]
  rfl

theorem view_run_other (m : Machine T) (s : Sys T) {cpu : Nat} (now : UInt64) (q : Queued T)
    (queue : List (Queued T)) {d : Dom} (hd : domOfCpu m.toConfig cpu ≠ d) :
    view m d { s with
        sched := blsRunning q.task now (popLocal s.sched cpu queue)
        running := Function.update s.running cpu (some q.task) } = view m d s := by
  have hctx := blsRunning_ctxOnly q.task now (popLocal s.sched cpu queue)
  simp only [view, hctx.idle, hctx.kicked, hctx.dsq, hctx.localDsq, blsRunning_isSome,
    taskDom_blsRunning]
  simp only [popLocal, restrict_update_other hd]
  rfl

omit [DecidableEq T] in
theorem view_canWake {m : Machine T} {s : Sys T} {p : T} {d : Dom}
    (hd : taskDom s.sched p = d) :
    (!((view m d s).known p && !(view m d s).runnable p)) = !canWake s p := by
  simp [view, canWake, hd]

theorem view_wakeup {m : Machine T} (hstrict : m.strictDomains = true) {s t : Sys T}
    (h : StrictInv m s) {p : T} {prevCpu : Int} {f : UInt64}
    (hstep : step m s (.wakeup p prevCpu f) = some t) (d : Dom) :
    run (fifoStep (half m d)) (view m d s) (share m d s (.wakeup p prevCpu f)) =
      some (view m d t) := by
  obtain ⟨⟨w, hw⟩, -, hidle, -⟩ := h
  obtain ⟨hwake, hcases⟩ := step_wakeup hw.direct hstep
  have hpin : pinned (half m d) p = pinned m p := rfl
  by_cases hd : taskDom s.sched p = d
  · have hpick := pickedCpu_half m p d prevCpu hidle
    have hguard := view_canWake (m := m) hd
    rw [hwake, Bool.not_true] at hguard
    have hmask : restrict m d false s.sched.idle = (view m d s).idle := rfl
    simp only [share, if_pos hd, run_singleton, fifoStep, hguard, hpin]
    rw [if_neg (by simp)]
    rw [hmask] at hpick
    rw [hd] at hcases
    rcases hcases with ⟨hyes, rfl⟩ | ⟨hno, cpu, hown, rfl⟩ | ⟨-, -, -, hno, -, -⟩ |
      ⟨hno, hown, -, rfl⟩
    · rw [if_pos hyes, view_enter_own m s p f hd]
    · rw [if_neg (by simp [hno]), ← hpick, hown]
      simp only
      rw [view_directed_own m s p _ hd (pickedCpu_dom hown).1]
    · exact absurd (hstrict.symm.trans hno) (by simp)
    · rw [if_neg (by simp [hno]), ← hpick, hown]
      simp only
      exact congrArg some
        (view_enter_own m { s with sched := statAdd s.sched .noIdleInDom 1 } p f hd).symm
  · simp only [share, if_neg hd, run_nil]
    rcases hcases with ⟨-, rfl⟩ | ⟨-, cpu, hown, rfl⟩ | ⟨-, -, -, hno, -, -⟩ | ⟨-, -, -, rfl⟩
    · rw [view_enter_other m s p f hd]
    · rw [view_directed_other m s p _ hd (by rw [(pickedCpu_dom hown).1]; exact hd)]
    · exact absurd (hstrict.symm.trans hno) (by simp)
    · exact congrArg some
        (view_enter_other m { s with sched := statAdd s.sched .noIdleInDom 1 } p f hd).symm

/-- A slice expiry: the task leaves the domain of its CPU, and enters the domain that
`stopping` leaves it in. -/
theorem view_expire {m : Machine T} {s t : Sys T} (h : StrictInv m s) {cpu : Nat}
    {now f : UInt64} (hstep : step m s (.expire cpu now f) = some t) (d : Dom) :
    run (fifoStep (half m d)) (view m d s) (share m d s (.expire cpu now f)) =
      some (view m d t) := by
  obtain ⟨⟨w, hw⟩, -, -, hrunning⟩ := h
  obtain ⟨p, hrun, rfl⟩ := step_expire hstep
  have hclass := taskDom_of_ctxDom (hrunning cpu p hrun)
  have hafter : taskDom (leave m s p cpu now).sched p =
      taskDom (blsStopping m p now cpu s.sched) p := rfl
  simp only [share, hrun]
  by_cases hown : domOfCpu m.toConfig cpu = d
  · have hview : (view m d s).running cpu = some p := (restrict_own hown ..).trans hrun
    have hleave := view_leave_own m s p now hown
    rw [if_pos hown]
    by_cases hstay : taskDom (blsStopping m p now cpu s.sched) p = d
    · rw [view_enter_own m _ p f (hafter.trans hstay), hleave]
      simp only [hstay, decide_true, if_true, run_singleton, fifoStep, hview]
    · rw [view_enter_other m _ p f (hafter ▸ hstay), hleave]
      simp only [hstay, decide_false, Bool.false_eq_true, if_false, run_singleton, fifoStep,
        hview]
  · have hleave := view_leave_other now hclass hown
    rw [if_neg hown]
    by_cases hstay : taskDom (blsStopping m p now cpu s.sched) p = d
    · rw [view_enter_own m _ p f (hafter.trans hstay), hleave]
      -- The task was runnable in the other domain, so it may enter this one.
      have hguard : (!((view m d s).known p && !(view m d s).runnable p)) = false := by
        simp [view, hclass, hown, (hw.known_running hrun).2]
      simp only [hstay, decide_true, if_true, run_singleton, fifoStep, hguard,
        Bool.false_eq_true, if_false]
    · rw [view_enter_other m _ p f (hafter ▸ hstay), hleave]
      simp only [hstay, decide_false, Bool.false_eq_true, if_false, run_nil]

omit [DecidableEq T] in
theorem Placed.dsq_unique {s : Sys T} {w : T → Option Place} (hw : Placed s w) {p : T}
    {d e : Dom} (hd : p ∈ (s.sched.dsq d).map (·.task)) (he : p ∈ (s.sched.dsq e).map (·.task)) :
    d = e := by
  have hplace := hw.holds.place_eq (i := .shared d) (j := .shared e) hd he
  simpa using hplace

theorem waitsOn_iff {s : Sys T} {p : T} {d : Dom} :
    waitsOn s p d = true ↔ p ∈ (s.sched.dsq d).map (·.task) := by
  simp [waitsOn]

theorem view_dequeue {m : Machine T} {s t : Sys T} (h : StrictInv m s) {p : T}
    (hstep : step m s (.dequeue p) = some t) (d : Dom) :
    run (fifoStep (half m d)) (view m d s) (share m d s (.dequeue p)) = some (view m d t) := by
  obtain ⟨⟨w, hw⟩, hagree, -, -⟩ := h
  obtain ⟨e, hmem, rfl⟩ := step_dequeue hstep
  obtain ⟨q, hq, hqp⟩ := List.mem_map.mp hmem
  have hclass : taskDom s.sched p = e := hqp ▸ taskDom_of_ctxDom (hagree.shared e q hq)
  simp only [share]
  rcases eq_or_ne d e with rfl | hne
  · have hno : ¬ waitsOn s p d.other = true := fun hother =>
      d.other_ne (hw.dsq_unique (waitsOn_iff.mp hother) hmem)
    have hany : ((view m d s).fifo.any fun q => q.task = p) = true := waitsOn_iff.mpr hmem
    rw [if_neg hno, run_singleton]
    simp only [fifoStep, hany, if_true]
    refine congrArg some ?_
    simp only [view, unqueue, Function.update_self, FifoSched.mk.injEq, true_and, and_true]
    funext r
    rcases eq_or_ne r p with rfl | hrp
    · simp
    · simp [hrp]
      rfl
  · have hother : d.other = e := ((Dom.eq_or_eq_other d e).resolve_left hne.symm).symm
    rw [if_pos (by rw [hother]; exact waitsOn_iff.mpr hmem), run_nil]
    refine congrArg some ?_
    simp only [view, unqueue, Function.update_of_ne hne, FifoSched.mk.injEq, true_and, and_true]
    funext r
    rcases eq_or_ne r p with rfl | hrp
    · simp [hclass, hne.symm]
    · simp [hrp]
      rfl

/-- Each domain answers an event with its share of it. -/
theorem view_step {m : Machine T} (hstrict : m.strictDomains = true) {s t : Sys T} {e : Event T}
    (h : StrictInv m s) (hstep : step m s e = some t) (d : Dom) :
    run (fifoStep (half m d)) (view m d s) (share m d s e) = some (view m d t) := by
  obtain ⟨w, hw⟩ := h.placed
  have hblocked : ∀ p, s.sched.taskCtx p = none → s.runnable p = false := by
    intro p hp
    by_contra hrun
    have hknown := hw.known p (by simpa using hrun)
    rw [hp] at hknown
    exact absurd hknown (by simp)
  cases e with
  | attach p =>
    obtain ⟨hp, rfl⟩ := step_attach hstep
    have hknown : (view m d s).known p = false := by simp [view, hp]
    simp only [share, run_singleton, fifoStep, hknown, Bool.false_eq_true, if_false]
    rw [view_adopt (hblocked p hp)]
  | fork parent child =>
    obtain ⟨hparent, hchild, rfl⟩ := step_fork hstep
    have hguard : (!(view m d s).known parent || (view m d s).known child) = false := by
      simp [view, hparent, hchild]
    simp only [share, run_singleton, fifoStep, hguard, Bool.false_eq_true, if_false]
    exact congrArg some (view_adopt
      (s := { s with comm := Function.update s.comm child (s.comm parent) })
      (hblocked child hchild) d).symm
  | exec p comm =>
    obtain ⟨hp, rfl⟩ := step_exec hstep
    have hguard : (!(view m d s).known p) = false := by simp [view, hp]
    simp only [share, run_singleton, fifoStep, hguard, Bool.false_eq_true, if_false]
    rfl
  | wakeup p prevCpu f => exact view_wakeup hstrict h hstep d
  | enqueue p f =>
    obtain ⟨hwake, rfl⟩ := step_enqueue hstep
    by_cases hd : taskDom s.sched p = d
    · have hguard := view_canWake (m := m) hd
      rw [hwake, Bool.not_true] at hguard
      simp only [share, if_pos hd, run_singleton, fifoStep, hguard, Bool.false_eq_true, if_false]
      rw [view_enter_own m s p f hd]
    · simp only [share, if_neg hd, run_nil]
      rw [view_enter_other m s p f hd]
  | dequeue p => exact view_dequeue h hstep d
  | expire cpu now f => exact view_expire h hstep d
  | block cpu now =>
    obtain ⟨p, hrun, rfl⟩ := step_block hstep
    by_cases hd : domOfCpu m.toConfig cpu = d
    · have hview : (view m d s).running cpu = some p := (restrict_own hd ..).trans hrun
      simp only [share, if_pos hd, run_singleton, fifoStep, hview]
      rw [view_leave_own m s p now hd]
    · have hclass := taskDom_of_ctxDom (h.running cpu p hrun)
      simp only [share, if_neg hd, run_nil]
      rw [view_leave_other now hclass hd]
  | dispatch cpu =>
    obtain ⟨hcpu, rfl⟩ := step_dispatch hstep
    by_cases hd : domOfCpu m.toConfig cpu = d
    · have hlt : cpu < (half m d).nrCpus := hcpu
      simp only [share, if_pos hd, run_singleton, fifoStep, if_pos hlt]
      rw [view_settle_own m _ hd, view_dispatch_own hstrict s hd]
    · simp only [share, if_neg hd, run_nil]
      rw [view_settle_other m _ hd, view_dispatch_other hstrict s hd]
  | run cpu now =>
    obtain ⟨hrun, q, queue, hloc, rfl⟩ := step_run hstep
    by_cases hd : domOfCpu m.toConfig cpu = d
    · have hview : (view m d s).running cpu = none := (restrict_own hd ..).trans hrun
      have hlocal : (view m d s).localDsq cpu = q :: queue := (restrict_own hd ..).trans hloc
      simp only [share, if_pos hd, run_singleton, fifoStep, hview, hlocal]
      rw [view_run_own m s now q queue hd]
    · simp only [share, if_neg hd, run_nil]
      rw [view_run_other m s now q queue hd]

/-- An event that cannot happen is refused by one of the domains. -/
theorem view_refuses (m : Machine T) (s : Sys T) (e : Event T) (hstep : step m s e = none) :
    ∃ d, run (fifoStep (half m d)) (view m d s) (share m d s e) = none := by
  cases e with
  | attach p =>
    refine ⟨.big, ?_⟩
    simp only [step, ite_eq_left_iff, reduceCtorEq, imp_false, not_not] at hstep
    simp only [share, run_singleton, fifoStep]
    exact if_pos hstep
  | fork parent child =>
    refine ⟨.big, ?_⟩
    simp only [step, ite_eq_left_iff, reduceCtorEq, imp_false, not_not] at hstep
    simp only [share, run_singleton, fifoStep]
    exact if_pos (by simpa [view] using hstep)
  | exec p comm =>
    refine ⟨.big, ?_⟩
    simp only [step, ite_eq_left_iff, reduceCtorEq, imp_false, not_not] at hstep
    simp only [share, run_singleton, fifoStep]
    exact if_pos (by simpa [view] using hstep)
  | wakeup p prevCpu f =>
    refine ⟨taskDom s.sched p, ?_⟩
    have hno : (!canWake s p) = true := by
      by_contra hwake
      simp only [step, if_neg hwake] at hstep
      split_ifs at hstep
    simp only [share, if_true, run_singleton, fifoStep, view_canWake (m := m) rfl, if_pos hno]
  | enqueue p f =>
    refine ⟨taskDom s.sched p, ?_⟩
    have hno : (!canWake s p) = true := by simpa [step] using hstep
    simp only [share, if_true, run_singleton, fifoStep, view_canWake (m := m) rfl, if_pos hno]
  | dequeue p =>
    refine ⟨.big, ?_⟩
    have hno : waitsOn s p .big = false ∧ waitsOn s p .little = false := by
      simp only [step] at hstep
      split_ifs at hstep with hbig hlittle
      exact ⟨by simpa using hbig, by simpa using hlittle⟩
    have hany : ((view m .big s).fifo.any fun q => q.task = p) = false := hno.1
    simp only [share, Dom.other, hno.2, Bool.false_eq_true, if_false, run_singleton, fifoStep,
      hany]
  | expire cpu now f =>
    refine ⟨domOfCpu m.toConfig cpu, ?_⟩
    cases hrun : s.running cpu with
    | some p => simp [step, hrun] at hstep
    | none =>
      have hview : (view m (domOfCpu m.toConfig cpu) s).running cpu = none :=
        (restrict_own rfl ..).trans hrun
      simp only [share, hrun, if_true, run_singleton, fifoStep, hview]
  | block cpu now =>
    refine ⟨domOfCpu m.toConfig cpu, ?_⟩
    cases hrun : s.running cpu with
    | some p => simp [step, hrun] at hstep
    | none =>
      have hview : (view m (domOfCpu m.toConfig cpu) s).running cpu = none :=
        (restrict_own rfl ..).trans hrun
      simp only [share, if_true, run_singleton, fifoStep, hview]
  | dispatch cpu =>
    refine ⟨domOfCpu m.toConfig cpu, ?_⟩
    have hno : ¬ cpu < m.nrCpus := by simpa [step] using hstep
    simp only [share, if_true, run_singleton, fifoStep]
    exact if_neg hno
  | run cpu now =>
    refine ⟨domOfCpu m.toConfig cpu, ?_⟩
    have hview : (view m (domOfCpu m.toConfig cpu) s).running cpu = s.running cpu :=
      restrict_own rfl ..
    have hlocal : (view m (domOfCpu m.toConfig cpu) s).localDsq cpu = s.sched.localDsq cpu :=
      restrict_own rfl ..
    simp only [share, if_true, run_singleton, fifoStep, hview, hlocal]
    unfold step at hstep
    cases hrun : s.running cpu with
    | some p => rfl
    | none =>
      cases hloc : s.sched.localDsq cpu with
      | nil => rfl
      | cons q queue => simp [hrun, hloc] at hstep

/-! ## Runs -/

/-- **A strict partition is two schedulers with one FIFO each.** Along every run each domain
takes, with its own CPUs and its own slice, exactly the steps of the reference scheduler on
its share of the events, and an event can happen when both domains can take their shares. -/
theorem strict_is_two_fifos (m : Machine T) (hstrict : m.strictDomains = true) (s : Sys T)
    (hinit : Init m s) (es : List (Event T)) (t : Sys T) (hrun : run (step m) s es = some t) :
    (∀ d, run (fifoStep (half m d)) (view m d s) (trace (step m) (share m d) s es) =
        some (view m d t)) ∧
      ∀ e, (step m t e).isSome ↔
        ∀ d, (run (fifoStep (half m d)) (view m d t) (share m d t e)).isSome := by
  have hkeeps : ∀ s e t, StrictInv m s → step m s e = some t → StrictInv m t :=
    fun s e t h hstep => strictInv_step hstrict h hstep
  refine ⟨fun d => ?_, fun e => ⟨fun h d => ?_, fun h => ?_⟩⟩
  · exact run_trace hkeeps (fun s e t h hstep => view_step hstrict h hstep d) es
      (strictInv_init hinit) hrun
  · obtain ⟨u, hu⟩ := Option.isSome_iff_exists.mp h
    rw [view_step hstrict (inv_run hkeeps es (strictInv_init hinit) hrun) hu d]
    rfl
  · by_contra hnone
    obtain ⟨d, hd⟩ := view_refuses m t e (Option.not_isSome_iff_eq_none.mp hnone)
    have hsome := h d
    rw [hd] at hsome
    exact absurd hsome (by simp)

/-- Two cores in strict mode, and a task that a long slice makes BIG: its expiry is a block
on the LITTLE core and an arrival in the BIG queue. -/
theorem strict_is_two_fifos_pair :
    ∃ t, run (step (pairMachine .hybrid true)) pairStart
        [.attach 1, .wakeup 1 1 0, .run 1 1, .expire 1 90000000 0] = some t ∧
      (∀ d, run (fifoStep (half (pairMachine .hybrid true) d))
        (view (pairMachine .hybrid true) d pairStart)
        (trace (step (pairMachine .hybrid true)) (share (pairMachine .hybrid true) d) pairStart
          [.attach 1, .wakeup 1 1 0, .run 1 1, .expire 1 90000000 0]) =
        some (view (pairMachine .hybrid true) d t)) ∧
      trace (step (pairMachine .hybrid true)) (share (pairMachine .hybrid true) .big) pairStart
        [.attach 1, .wakeup 1 1 0, .run 1 1, .expire 1 90000000 0] =
          [.attach 1, .enqueue 1 0] := by
  obtain ⟨t, hrun⟩ : ∃ t, run (step (pairMachine .hybrid true)) pairStart
      [.attach 1, .wakeup 1 1 0, .run 1 1, .expire 1 90000000 0] = some t := ⟨_, rfl⟩
  exact ⟨t, hrun, (strict_is_two_fifos _ rfl pairStart (pairStart_init _ _) _ t hrun).1, rfl⟩

end FakeBigLittle
