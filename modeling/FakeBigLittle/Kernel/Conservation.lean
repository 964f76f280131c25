import FakeBigLittle.Kernel.Placement

/-!
# Work conservation

Without `--strict` a CPU that goes idle has looked at both DSQs, and a wakeup that goes
through `select_cpu` has looked at every idle CPU of its mask. `enqueue` alone has not: it
kicks one idle CPU, of the task's own domain.
-/

namespace FakeBigLittle

open Runs

variable {T : Type}

/-- No CPU is idle and not kicked while a task that it may run waits. -/
def Conserving (m : Machine T) (s : Sched T) : Prop :=
  ∀ cpu, s.idle cpu = true → s.kicked cpu = false →
    ∀ d, ∀ q ∈ s.dsq d, m.cpusPtr q.task cpu = false

/-- `p` may use one idle CPU at most, and this CPU is of its class. -/
def OneIdle (m : Machine T) (s : Sched T) (p : T) : Prop :=
  ∀ cpu, s.idle cpu = true → m.cpusPtr p cpu = true →
    domOfCpu m.toConfig cpu = taskDom s p ∧
      ∀ i, s.idle i = true → m.cpusPtr p i = true → i = cpu

/-- The idle bit is gone before a CPU is kicked. -/
def KickedBusy (s : Sched T) : Prop := ∀ cpu, s.idle cpu = true → s.kicked cpu = false

/-! ## `enqueue` -/

theorem kickedBusy_enqueue {m : Machine T} {s : Sched T} (h : KickedBusy s) (p : T)
    (f : UInt64) : KickedBusy (blsEnqueue m p f s) := by
  intro cpu hidle
  rw [blsEnqueue_eq] at hidle ⊢
  obtain ⟨hold, hne⟩ := setBit_false hidle
  exact (setBit_of_ne true hne).trans (h cpu hold)

theorem conserving_enqueue {m : Machine T} {s : Sched T} (h : Conserving m s)
    (hk : KickedBusy s) {p : T} (hone : OneIdle m s p) (f : UInt64) :
    Conserving m (blsEnqueue m p f s) := by
  intro cpu hidle hkicked d q hq
  rw [blsEnqueue_eq] at hidle
  obtain ⟨hold, hne⟩ := setBit_false hidle
  rcases mem_blsEnqueue_dsq.mp hq with hq | ⟨rfl, rfl⟩
  · exact h cpu hold (hk cpu hold) d q hq
  · -- An idle CPU of the mask would be the one that is kicked.
    by_contra hmask
    rw [Bool.not_eq_false] at hmask
    obtain ⟨hdom, honly⟩ := hone cpu hold hmask
    rcases hfirst : firstIdle m p (taskDom s p) s.idle with _ | i
    · rw [firstIdle_none hfirst hdom hmask] at hold
      exact absurd hold (by simp)
    · obtain ⟨-, -, himask, hiidle⟩ := firstIdle_some hfirst
      exact hne (by rw [hfirst, honly i hiidle himask])

theorem oneIdle_of_conserving {m : Machine T} {s : Sched T} (hk : KickedBusy s) {p : T}
    {f : UInt64} (h : Conserving m (blsEnqueue m p f s)) : OneIdle m s p := by
  -- Every idle CPU of the mask is the one that was kicked.
  have hkick : ∀ cpu, s.idle cpu = true → m.cpusPtr p cpu = true →
      firstIdle m p (taskDom s p) s.idle = some cpu := by
    intro cpu hidle hmask
    by_contra hne
    have hfree := h cpu (by rw [blsEnqueue_eq]; exact (setBit_of_ne false hne).trans hidle)
      (by rw [blsEnqueue_eq]; exact (setBit_of_ne true hne).trans (hk cpu hidle)) _ _
      (mem_blsEnqueue_dsq.mpr (Or.inr ⟨rfl, rfl⟩))
    rw [hmask] at hfree
    exact absurd hfree (by simp)
  intro cpu hidle hmask
  refine ⟨(firstIdle_some (hkick cpu hidle hmask)).2.1, fun i hi himask => ?_⟩
  have := (hkick i hi himask).symm.trans (hkick cpu hidle hmask)
  simpa using this

/-! ## `dispatch` -/

theorem conserving_blsDispatch {m : Machine T} {s : Sched T} (h : Conserving m s) (cpu : Nat) :
    Conserving m (blsDispatch m cpu s) := by
  intro c hidle hkicked d q hq
  have hq' := blsDispatch_dsq_subset hq
  rcases blsDispatch_cases m cpu s with ⟨r, -, heq⟩ | ⟨r, -, -, -, heq⟩ | ⟨-, -, heq⟩ <;>
  · rw [heq] at hidle hkicked
    exact h c hidle hkicked d q hq'

theorem kickedBusy_blsDispatch {m : Machine T} {s : Sched T} (h : KickedBusy s) (cpu : Nat) :
    KickedBusy (blsDispatch m cpu s) := by
  rcases blsDispatch_cases m cpu s with ⟨r, -, heq⟩ | ⟨r, -, -, -, heq⟩ | ⟨-, -, heq⟩ <;>
  · rw [heq]
    exact h

/-- `dispatch` leaves the CPU with a task, or with nothing to find. -/
theorem blsDispatch_found {m : Machine T} (hs : m.strictDomains = false) (cpu : Nat)
    (s : Sched T) : (blsDispatch m cpu s).localDsq cpu ≠ [] ∨
      ∀ d, ∀ q ∈ (blsDispatch m cpu s).dsq d, m.cpusPtr q.task cpu = false := by
  rcases blsDispatch_cases m cpu s with
    ⟨q, -, heq⟩ | ⟨q, -, -, -, heq⟩ | ⟨hown, hother, heq⟩
  · rw [heq]
    exact Or.inl (by simp [moved])
  · rw [heq]
    exact Or.inl (by simp [moved])
  · rw [heq]
    refine Or.inr fun d q hq => ?_
    rcases Dom.eq_or_eq_other (domOfCpu m.toConfig cpu) d with rfl | rfl
    · simpa using List.find?_eq_none.mp hown q hq
    · simpa using List.find?_eq_none.mp (hother hs) q hq

theorem settle_busy {s : Sys T} {cpu : Nat} (h : s.sched.localDsq cpu ≠ []) :
    settle s cpu =
      { s with sched := { s.sched with kicked := Function.update s.sched.kicked cpu false } } := by
  unfold settle
  rw [if_neg fun hidle => h hidle.2]

theorem kickedBusy_settle {s : Sys T} (h : KickedBusy s.sched) (cpu : Nat) :
    KickedBusy (settle s cpu).sched := by
  intro c hidle
  unfold settle at hidle ⊢
  simp only at hidle ⊢
  rcases eq_or_ne c cpu with rfl | hne
  · split_ifs <;> simp
  · split_ifs at hidle ⊢
    · simp only [Function.update_of_ne hne] at hidle ⊢
      exact h c hidle
    · simp only [Function.update_of_ne hne]
      exact h c hidle

/-- A CPU goes idle after it found nothing in either DSQ. -/
theorem conserving_settle {m : Machine T} {s : Sys T} (h : Conserving m s.sched)
    (hk : KickedBusy s.sched) {cpu : Nat}
    (hfound : s.sched.localDsq cpu ≠ [] ∨
      ∀ d, ∀ q ∈ s.sched.dsq d, m.cpusPtr q.task cpu = false) :
    Conserving m (settle s cpu).sched := by
  by_cases hbusy : s.sched.localDsq cpu = []
  · have hnone := hfound.resolve_left (by simp [hbusy])
    intro c hidle hkicked d q hq
    unfold settle at hidle hq
    simp only at hidle hq
    rcases eq_or_ne c cpu with rfl | hne
    · split_ifs at hq <;> exact hnone d q hq
    · split_ifs at hidle hq
      · simp only [Function.update_of_ne hne] at hidle
        exact h c hidle (hk c hidle) d q hq
      · exact h c hidle (hk c hidle) d q hq
  · rw [settle_busy hbusy]
    exact fun c hidle _ => h c hidle (hk c hidle)

theorem conserving_dispatch {m : Machine T} (hs : m.strictDomains = false) {s : Sys T}
    (h : Conserving m s.sched) (hk : KickedBusy s.sched) (cpu : Nat) :
    Conserving m (settle { s with sched := blsDispatch m cpu s.sched } cpu).sched :=
  conserving_settle (conserving_blsDispatch h cpu) (kickedBusy_blsDispatch hk cpu)
    (blsDispatch_found hs cpu s.sched)

/-! ## Every event -/

theorem kickedBusy_of_eq {s s' : Sched T} (h : KickedBusy s) (hidle : s'.idle = s.idle)
    (hkicked : s'.kicked = s.kicked) : KickedBusy s' := by
  intro cpu hcpu
  rw [hidle] at hcpu
  rw [hkicked]
  exact h cpu hcpu

theorem conserving_ctxOnly {m : Machine T} {s s' : Sched T} {p : T} (h : Conserving m s)
    (hctx : CtxOnly p s s') : Conserving m s' := by
  intro cpu hidle hkicked d q hq
  rw [hctx.idle] at hidle
  rw [hctx.kicked] at hkicked
  rw [hctx.dsq] at hq
  exact h cpu hidle hkicked d q hq

theorem kickedBusy_ctxOnly {s s' : Sched T} {p : T} (h : KickedBusy s)
    (hctx : CtxOnly p s s') : KickedBusy s' :=
  kickedBusy_of_eq h hctx.idle hctx.kicked

/-- A CPU that got a task is no longer idle, and no other CPU changes. -/
theorem kickedBusy_update {s s' : Sched T} (h : KickedBusy s) {cpu : Nat}
    (hidle : s'.idle = Function.update s.idle cpu false)
    (hkicked : ∀ c, c ≠ cpu → s'.kicked c = s.kicked c) : KickedBusy s' := by
  intro c hc
  rw [hidle] at hc
  rcases eq_or_ne c cpu with rfl | hne
  · simp at hc
  · rw [Function.update_of_ne hne] at hc
    rw [hkicked c hne]
    exact h c hc

theorem conserving_update {m : Machine T} {s s' : Sched T} (h : Conserving m s)
    (hk : KickedBusy s) {cpu : Nat} (hidle : s'.idle = Function.update s.idle cpu false)
    (hdsq : s'.dsq = s.dsq) : Conserving m s' := by
  intro c hc _ d q hq
  rw [hidle] at hc
  rw [hdsq] at hq
  rcases eq_or_ne c cpu with rfl | hne
  · simp at hc
  · rw [Function.update_of_ne hne] at hc
    exact h c hc (hk c hc) d q hq

variable [DecidableEq T]

/-- An `enqueue` that no `select_cpu` went before sees one idle CPU at most, of the task's
class. After a slice expiry the class is what `stopping` left. -/
def EnqueueSeesOne (m : Machine T) (s : Sys T) : Event T → Prop
  | .wakeup p _ _ => pinned m p = true → OneIdle m s.sched p
  | .enqueue p _ => OneIdle m s.sched p
  | .expire cpu now _ => ∀ p, s.running cpu = some p →
      OneIdle m (blsStopping m p now cpu s.sched) p
  | _ => True

/-- What holds whether or not work is conserved. -/
structure Kept (s : Sys T) : Prop where
  placed : ∃ w, Placed s w
  kickedBusy : KickedBusy s.sched

theorem kickedBusy_step {m : Machine T} {s t : Sys T} {e : Event T} (h : Kept s)
    (hstep : step m s e = some t) : KickedBusy t.sched := by
  obtain ⟨⟨w, hw⟩, hk⟩ := h
  cases e with
  | attach p =>
    obtain ⟨-, rfl⟩ := step_attach hstep
    exact kickedBusy_ctxOnly hk (blsInitTask_ctxOnly ..)
  | fork parent child =>
    obtain ⟨-, -, rfl⟩ := step_fork hstep
    exact kickedBusy_ctxOnly hk (blsInitTask_ctxOnly ..)
  | exec p comm =>
    obtain ⟨-, rfl⟩ := step_exec hstep
    exact hk
  | wakeup p prevCpu f =>
    obtain ⟨-, ⟨-, rfl⟩ | ⟨-, cpu, -, rfl⟩ | ⟨-, cpu, -, -, -, rfl⟩ | ⟨-, -, -, rfl⟩⟩ :=
      step_wakeup hw.direct hstep
    · exact kickedBusy_enqueue hk p f
    · exact kickedBusy_update hk rfl fun _ _ => rfl
    · exact kickedBusy_update hk rfl fun _ _ => rfl
    · exact kickedBusy_enqueue (s := statAdd s.sched .noIdleInDom 1) hk p f
  | enqueue p f =>
    obtain ⟨-, rfl⟩ := step_enqueue hstep
    exact kickedBusy_enqueue hk p f
  | dequeue p =>
    obtain ⟨d, -, rfl⟩ := step_dequeue hstep
    exact hk
  | expire cpu now f =>
    obtain ⟨p, -, rfl⟩ := step_expire hstep
    exact kickedBusy_enqueue (kickedBusy_ctxOnly hk (blsStopping_ctxOnly ..)) p f
  | block cpu now =>
    obtain ⟨p, -, rfl⟩ := step_block hstep
    exact kickedBusy_ctxOnly hk (blsStopping_ctxOnly ..)
  | dispatch cpu =>
    obtain ⟨-, rfl⟩ := step_dispatch hstep
    exact kickedBusy_settle (kickedBusy_blsDispatch hk cpu) cpu
  | run cpu now =>
    obtain ⟨-, q, rest, -, rfl⟩ := step_run hstep
    have hctx := blsRunning_ctxOnly q.task now (popLocal s.sched cpu rest)
    refine kickedBusy_update hk hctx.idle fun c hc => ?_
    rw [hctx.kicked]
    exact Function.update_of_ne hc ..

theorem kept_step {m : Machine T} {s t : Sys T} {e : Event T} (h : Kept s)
    (hstep : step m s e = some t) : Kept t := by
  obtain ⟨w, hw⟩ := h.placed
  obtain ⟨w', hw', -⟩ := placed_step hw hstep
  exact ⟨⟨w', hw'⟩, kickedBusy_step h hstep⟩

theorem conserving_step {m : Machine T} (hs : m.strictDomains = false) {s t : Sys T}
    {e : Event T} (hkept : Kept s) (h : Conserving m s.sched) (he : EnqueueSeesOne m s e)
    (hstep : step m s e = some t) : Conserving m t.sched := by
  obtain ⟨⟨w, hw⟩, hk⟩ := hkept
  cases e with
  | attach p =>
    obtain ⟨-, rfl⟩ := step_attach hstep
    exact conserving_ctxOnly h (blsInitTask_ctxOnly ..)
  | fork parent child =>
    obtain ⟨-, -, rfl⟩ := step_fork hstep
    exact conserving_ctxOnly h (blsInitTask_ctxOnly ..)
  | exec p comm =>
    obtain ⟨-, rfl⟩ := step_exec hstep
    exact h
  | wakeup p prevCpu f =>
    obtain ⟨-, ⟨hpin, rfl⟩ | ⟨-, cpu, -, rfl⟩ | ⟨-, cpu, -, -, -, rfl⟩ |
      ⟨-, hown, hother, rfl⟩⟩ := step_wakeup hw.direct hstep
    · exact conserving_enqueue h hk (he hpin) f
    · exact conserving_update h hk rfl rfl
    · exact conserving_update h hk rfl rfl
    · -- `select_cpu` found no idle CPU in the mask, in either domain.
      apply conserving_enqueue (s := statAdd s.sched .noIdleInDom 1) h hk _ f
      intro cpu hidle hmask
      rcases Dom.eq_or_eq_other (taskDom s.sched p) (domOfCpu m.toConfig cpu) with hd | hd
      · have := firstIdle_none (pickedCpu_none hown) hd hmask
        exact absurd (this.symm.trans hidle) (by simp)
      · have := firstIdle_none (hother hs) hd hmask
        exact absurd (this.symm.trans hidle) (by simp)
  | enqueue p f =>
    obtain ⟨-, rfl⟩ := step_enqueue hstep
    exact conserving_enqueue h hk he f
  | dequeue p =>
    obtain ⟨d, -, rfl⟩ := step_dequeue hstep
    intro cpu hidle hkicked e q hq
    rcases eq_or_ne e d with rfl | hne
    · simp only [unqueue, Function.update_self] at hq
      exact h cpu hidle hkicked e q (List.mem_of_mem_eraseP hq)
    · simp only [unqueue, Function.update_of_ne hne] at hq
      exact h cpu hidle hkicked e q hq
  | expire cpu now f =>
    obtain ⟨p, hrun, rfl⟩ := step_expire hstep
    have hctx := blsStopping_ctxOnly m p now cpu s.sched
    exact conserving_enqueue (conserving_ctxOnly h hctx) (kickedBusy_ctxOnly hk hctx)
      (he p hrun) f
  | block cpu now =>
    obtain ⟨p, -, rfl⟩ := step_block hstep
    exact conserving_ctxOnly h (blsStopping_ctxOnly ..)
  | dispatch cpu =>
    obtain ⟨-, rfl⟩ := step_dispatch hstep
    exact conserving_dispatch hs h hk cpu
  | run cpu now =>
    obtain ⟨-, q, rest, -, rfl⟩ := step_run hstep
    have hctx := blsRunning_ctxOnly q.task now (popLocal s.sched cpu rest)
    exact conserving_update h hk hctx.idle hctx.dsq

theorem enqueueSeesOne_of_conserving {m : Machine T} {s t : Sys T} {e : Event T}
    (hkept : Kept s) (hstep : step m s e = some t) (h : Conserving m t.sched) :
    EnqueueSeesOne m s e := by
  obtain ⟨⟨w, hw⟩, hk⟩ := hkept
  cases e with
  | wakeup p prevCpu f =>
    intro hpin
    obtain ⟨-, ⟨-, rfl⟩ | ⟨hpin', -⟩ | ⟨hpin', -⟩ | ⟨hpin', -⟩⟩ := step_wakeup hw.direct hstep
    · exact oneIdle_of_conserving hk h
    all_goals
      rw [hpin] at hpin'
      exact absurd hpin' (by simp)
  | enqueue p f =>
    obtain ⟨-, rfl⟩ := step_enqueue hstep
    exact oneIdle_of_conserving hk h
  | expire cpu now f =>
    intro p hp
    obtain ⟨q, hrun, rfl⟩ := step_expire hstep
    obtain rfl : q = p := Option.some.inj (hrun.symm.trans hp)
    exact oneIdle_of_conserving (kickedBusy_ctxOnly hk (blsStopping_ctxOnly ..)) h
  | _ => trivial

omit [DecidableEq T] in
theorem kept_init {m : Machine T} {s : Sys T} (h : Init m s) : Kept s := by
  refine ⟨⟨_, placed_init h⟩, fun cpu _ => ?_⟩
  rw [h.sched]
  rfl

/-- **When work is conserved.** In every state of a run no CPU is idle and not kicked while
a task that it may run waits, exactly when every `enqueue` of a task that did not go
through `select_cpu` sees at most one idle CPU in the task's mask, of the task's class. -/
theorem work_conserved_iff (m : Machine T) (hs : m.strictDomains = false) (s : Sys T)
    (hinit : Init m s) (es : List (Event T)) :
    StatesMeet (step m) (fun s => Conserving m s.sched) s es ↔
      StepsMeet (step m) (EnqueueSeesOne m) s es := by
  apply statesMeet_iff (A := fun _ _ => True) (I := Kept)
  · intro s e t hk h _ hstep
    exact ⟨kept_step hk hstep, enqueueSeesOne_of_conserving hk hstep,
      fun he => conserving_step hs hk h he hstep⟩
  · exact kept_init hinit
  · intro cpu _ _ d q hq
    rw [hinit.sched] at hq
    exact absurd hq (by simp [Sched.start])
  · exact stepsMeet_true ..

theorem work_conserved_iff_pair :
    StatesMeet (step (pairMachine .hybrid false))
        (fun s => Conserving (pairMachine .hybrid false) s.sched) pairStart
        [.attach 1, .wakeup 1 0 0] ↔
      StepsMeet (step (pairMachine .hybrid false)) (EnqueueSeesOne (pairMachine .hybrid false))
        pairStart [.attach 1, .wakeup 1 0 0] :=
  work_conserved_iff (pairMachine .hybrid false) rfl pairStart (pairStart_init .hybrid false) _

/-- A LITTLE task that is pinned to the idle BIG core waits, and the core sleeps on. -/
theorem work_conserved_fails :
    ∃ s, run (step (pairMachine .hybrid false)) pairStart [.attach 0, .wakeup 0 0 0] = some s ∧
      ¬ Conserving (pairMachine .hybrid false) s.sched := by
  refine ⟨_, rfl, fun h => ?_⟩
  have := h 0 rfl rfl .little ⟨0, 3000000, 0⟩
    (List.mem_singleton.mpr rfl)
  exact absurd this (by decide)

end FakeBigLittle
