import FakeBigLittle.Kernel.Placement

/-!
# The placement counters

Three callbacks raise the counters, and one of the counters, `cross_domain`, is raised by two of
them. What the counters say is kept in balance with what is on the queues.
-/

namespace FakeBigLittle

open Runs

variable {T : Type}

/-! ## What is counted -/

-- The tasks on the two shared DSQs.
def queued (s : Sched T) : Nat := (s.dsq .big).length + (s.dsq .little).length

-- The tasks that went through `enqueue`, by the DSQ that they were put on.
def classes (s : Sched T) : Nat := s.stats .dsqBig + s.stats .dsqLittle

-- The wakeups that spilled, and the queued tasks by where they are now.
def settled (s : Sched T) : Nat := s.stats .localHit + s.stats .steal + queued s

def selections (s : Sched T) : Nat := s.stats .direct + s.stats .noIdleInDom

/-- The kernel calls `select_cpu`. -/
def selects (m : Machine T) (_ : Sys T) : Event T → Bool
  | .wakeup p _ _ => !pinned m p
  | _ => false

/-- `select_cpu` finds no CPU in the task's domain, and one in the other. -/
def spills (m : Machine T) (s : Sys T) : Event T → Bool
  | .wakeup p prevCpu _ =>
    !pinned m p && !m.strictDomains &&
      (pickIdleInDom m p (taskDom s.sched p) prevCpu s.sched).1.isNone &&
      (pickIdleInDom m p (taskDom s.sched p).other (-1) s.sched).1.isSome
  | _ => false

/-- The kernel takes a task off a shared DSQ. -/
def removes (_ : Sys T) : Event T → Bool
  | .dequeue _ => true
  | _ => false

/-- What leads from `s` to `t` calls `enqueue` and `select_cpu` so often, lets so many wakeups
spill and takes so many tasks off the shared DSQs. -/
structure Adds (s t : Sched T) (enqueued selected spilled removed : Nat) : Prop where
  enq : t.stats .enq = s.stats .enq + enqueued
  classes : classes t = classes s + enqueued
  settled : settled t + removed = settled s + enqueued + spilled
  selections : selections t = selections s + selected + spilled
  steal : s.stats .steal + spilled ≤ t.stats .steal
  direct : s.stats .direct + spilled ≤ t.stats .direct

theorem Adds.trans {s t u : Sched T} {a b c d a' b' c' d' : Nat} (h : Adds s t a b c d)
    (h' : Adds t u a' b' c' d') : Adds s u (a + a') (b + b') (c + c') (d + d') := by
  have hsettled := h.settled
  have hsettled' := h'.settled
  refine ⟨?_, ?_, ?_, ?_, ?_, ?_⟩
  · rw [h'.enq, h.enq, Nat.add_assoc]
  · rw [h'.classes, h.classes, Nat.add_assoc]
  · omega
  · rw [h'.selections, h.selections]
    omega
  · have := h.steal
    have := h'.steal
    omega
  · have := h.direct
    have := h'.direct
    omega

/-- Neither the DSQs change nor these counters. -/
theorem adds_nothing {s t : Sched T} (hdsq : t.dsq = s.dsq)
    (h : ∀ i ∈ [Stat.enq, .dsqBig, .dsqLittle, .localHit, .steal, .direct, .noIdleInDom],
      t.stats i = s.stats i) : Adds s t 0 0 0 0 := by
  simp only [List.forall_mem_cons] at h
  obtain ⟨henq, hbig, hlittle, hhit, hsteal, hdirect, hnone, -⟩ := h
  refine ⟨henq, ?_, ?_, ?_, hsteal.ge, hdirect.ge⟩
  · unfold classes
    rw [hbig, hlittle, Nat.add_zero]
  · unfold settled queued
    rw [hhit, hsteal, hdsq]
  · unfold selections
    rw [hdirect, hnone]
    rfl

/-! ## What the callbacks add -/

theorem dsq_update_length (dsq : Dom → List (Queued T)) (d : Dom) (l : List (Queued T)) :
    (Function.update dsq d l .big).length + (Function.update dsq d l .little).length +
        (dsq d).length =
      (dsq .big).length + (dsq .little).length + l.length := by
  cases d <;> simp <;> omega

theorem adds_enqueue (m : Machine T) (p : T) (f : UInt64) (s : Sched T) :
    Adds s (blsEnqueue m p f s) 1 0 0 0 := by
  have hlength := dsq_update_length s.dsq (taskDom s p)
    (s.dsq (taskDom s p) ++ [⟨p, domSlice m.toConfig (taskDom s p), f⟩])
  rw [List.length_append, List.length_singleton] at hlength
  rw [blsEnqueue_eq]
  cases hdom : taskDom s p <;> rw [hdom] at hlength <;>
    refine ⟨?_, ?_, ?_, ?_, ?_, ?_⟩ <;>
    simp [classes, settled, selections, queued] at hlength ⊢ <;> omega

/-- A task that `dispatch` moves is still accounted for. -/
theorem adds_moved {m : Machine T} {s : Sched T} {cpu : Nat} {d : Dom} {q : Queued T}
    {i : Stat} (hq : ((s.dsq d).find? fun q => m.cpusPtr q.task cpu) = some q)
    (hi : i = .localHit ∨ i = .steal) : Adds s (moved m s cpu d q i) 0 0 0 0 := by
  have hlength := dsq_update_length s.dsq d ((s.dsq d).eraseP fun q => m.cpusPtr q.task cpu)
  have herase := List.length_eraseP_add_one (List.mem_of_find?_eq_some hq) (List.find?_some hq)
  unfold moved
  rcases hi with rfl | rfl <;> refine ⟨?_, ?_, ?_, ?_, ?_, ?_⟩ <;>
    simp [classes, settled, selections, queued] <;> omega

theorem adds_dispatch (m : Machine T) (cpu : Nat) (s : Sched T) :
    Adds s (blsDispatch m cpu s) 0 0 0 0 := by
  rcases blsDispatch_cases m cpu s with ⟨q, hq, heq⟩ | ⟨q, -, -, hq, heq⟩ | ⟨-, -, heq⟩
  · rw [heq]
    exact adds_moved hq (Or.inl rfl)
  · rw [heq]
    exact adds_moved hq (Or.inr rfl)
  · rw [heq]
    exact adds_nothing rfl fun _ _ => rfl

/-- A task of a shared DSQ is taken off it. -/
theorem adds_erase [DecidableEq T] {s : Sched T} {p : T} {d : Dom}
    (hp : p ∈ (s.dsq d).map (·.task)) :
    Adds s { s with dsq := Function.update s.dsq d ((s.dsq d).eraseP fun q => q.task = p) }
      0 0 0 1 := by
  obtain ⟨q, hq, hqp⟩ := List.mem_map.mp hp
  have hlength := dsq_update_length s.dsq d ((s.dsq d).eraseP fun q => q.task = p)
  have herase := List.length_eraseP_add_one (p := fun q : Queued T => decide (q.task = p)) hq
    (by simpa using hqp)
  refine ⟨rfl, rfl, ?_, rfl, le_rfl, le_rfl⟩
  simp [settled, queued]
  omega

variable [DecidableEq T]

theorem adds_stopping (m : Machine T) (p : T) (now : UInt64) (cpu : Nat) (s : Sched T) :
    Adds s (blsStopping m p now cpu s) 0 0 0 0 := by
  apply adds_nothing (blsStopping_ctxOnly m p now cpu s).dsq
  intro i hi
  apply blsStopping_stats <;>
  · rintro rfl
    simp at hi

theorem adds_running (p : T) (now : UInt64) (s : Sched T) :
    Adds s (blsRunning p now s) 0 0 0 0 :=
  adds_nothing (blsRunning_ctxOnly p now s).dsq fun _ _ => by rw [blsRunning_stats]

theorem adds_initTask (m : Machine T) (p : T) (comm : Option Comm) (alloc : Bool) (s : Sched T) :
    Adds s (blsInitTask m p comm alloc s).2 0 0 0 0 := by
  apply adds_nothing (blsInitTask_ctxOnly m p comm alloc s).dsq
  intro i hi
  apply blsInitTask_stats <;>
  · rintro rfl
    simp at hi

/-! ## What an event adds -/

/-- The same, of an event. -/
def StepAdds (m : Machine T) (s t : Sys T) (e : Event T) : Prop :=
  ∃ enqueued, Adds s.sched t.sched enqueued (selects m s e).toNat (spills m s e).toNat
    (removes s e).toNat

theorem adds_wakeup {m : Machine T} {s t : Sys T} {p : T} {prevCpu : Int} {f : UInt64}
    (hdirect : s.sched.direct = []) (h : step m s (.wakeup p prevCpu f) = some t) :
    StepAdds m s t (.wakeup p prevCpu f) := by
  unfold StepAdds selects spills removes
  simp only [pickIdleInDom_eq, pickedCpu_neg]
  obtain ⟨-, ⟨hpin, rfl⟩ | ⟨hpin, cpu, hpick, rfl⟩ | ⟨hpin, cpu, hpick, hstrict, hother, rfl⟩ |
    ⟨hpin, hpick, hother, rfl⟩⟩ := step_wakeup hdirect h
  · refine ⟨1, ?_⟩
    simp only [hpin]
    exact adds_enqueue m p f s.sched
  · refine ⟨0, ?_⟩
    simp only [hpin, hpick]
    refine ⟨?_, ?_, ?_, ?_, ?_, ?_⟩ <;>
      simp [directed, wake, classes, settled, selections, queued]
    omega
  · refine ⟨0, ?_⟩
    simp only [hpin, hpick, hstrict, hother]
    refine ⟨?_, ?_, ?_, ?_, ?_, ?_⟩ <;>
      simp [directed, wake, classes, settled, selections, queued] <;> omega
  · refine ⟨1, ?_⟩
    have hnone : Adds s.sched (statAdd s.sched .noIdleInDom 1) 0 1 0 0 := by
      refine ⟨?_, ?_, ?_, ?_, ?_, ?_⟩ <;> simp [classes, settled, selections, queued, statAdd]
      omega
    have hspills : (!m.strictDomains &&
        (firstIdle m p (taskDom s.sched p).other s.sched.idle).isSome) = false := by
      cases hstrict : m.strictDomains with
      | true => rfl
      | false => simp [hother hstrict]
    simp only [hpin, hpick, Bool.not_false, Option.isNone_none, Bool.true_and, Bool.and_true,
      hspills]
    exact hnone.trans (adds_enqueue m p f _)

theorem step_adds {m : Machine T} {s t : Sys T} {e : Event T} (hdirect : s.sched.direct = [])
    (hstep : step m s e = some t) : StepAdds m s t e := by
  cases e with
  | attach p =>
    obtain ⟨-, rfl⟩ := step_attach hstep
    exact ⟨0, adds_initTask ..⟩
  | fork parent child =>
    obtain ⟨-, -, rfl⟩ := step_fork hstep
    exact ⟨0, adds_initTask ..⟩
  | exec p comm =>
    obtain ⟨-, rfl⟩ := step_exec hstep
    exact ⟨0, adds_nothing rfl fun _ _ => rfl⟩
  | wakeup p prevCpu f => exact adds_wakeup hdirect hstep
  | enqueue p f =>
    obtain ⟨-, rfl⟩ := step_enqueue hstep
    exact ⟨1, adds_enqueue m p f s.sched⟩
  | dequeue p =>
    obtain ⟨d, hp, rfl⟩ := step_dequeue hstep
    exact ⟨0, adds_erase hp⟩
  | expire cpu now f =>
    obtain ⟨p, -, rfl⟩ := step_expire hstep
    exact ⟨1, (adds_stopping m p now cpu s.sched).trans (adds_enqueue m p f _)⟩
  | block cpu now =>
    obtain ⟨p, -, rfl⟩ := step_block hstep
    exact ⟨0, adds_stopping m p now cpu s.sched⟩
  | dispatch cpu =>
    obtain ⟨-, rfl⟩ := step_dispatch hstep
    have hsettle := adds_nothing (settle_dsq { s with sched := blsDispatch m cpu s.sched } cpu)
      fun i _ => congrFun (settle_stats { s with sched := blsDispatch m cpu s.sched } cpu) i
    exact ⟨0, (adds_dispatch m cpu s.sched).trans hsettle⟩
  | run cpu now =>
    obtain ⟨-, q, rest, -, rfl⟩ := step_run hstep
    have hpop : Adds s.sched (popLocal s.sched cpu rest) 0 0 0 0 :=
      adds_nothing rfl fun _ _ => rfl
    exact ⟨0, hpop.trans (adds_running q.task now _)⟩

/-! ## Runs -/

section Runs

variable {m : Machine T} {s t : Sys T} {w : T → Option Place} {es : List (Event T)}

theorem placed_of_step {e : Event T} (h : ∃ w, Placed s w) (hstep : step m s e = some t) :
    ∃ w, Placed t w := by
  obtain ⟨w, hw⟩ := h
  obtain ⟨w', hw', -⟩ := placed_step hw hstep
  exact ⟨w', hw'⟩

theorem run_enq (hw : Placed s w) (hrun : run (step m) s es = some t) :
    t.sched.stats .enq + classes s.sched = s.sched.stats .enq + classes t.sched := by
  have hbalance : t.sched.stats .enq + classes s.sched + sumSteps (step m) (fun _ _ => 0) s es =
      s.sched.stats .enq + classes t.sched + sumSteps (step m) (fun _ _ => 0) s es := by
    apply sumSteps_balance (I := fun s => ∃ w, Placed s w) (f := fun s => s.sched.stats .enq)
      (g := fun s => classes s.sched) (fun s e t => placed_of_step) ?_ es ⟨w, hw⟩ hrun
    rintro s e t ⟨w, hw⟩ hstep
    obtain ⟨k, hadds⟩ := step_adds hw.direct hstep
    have henq := hadds.enq
    have hclasses := hadds.classes
    omega
  omega

theorem run_settled (hw : Placed s w) (hrun : run (step m) s es = some t) :
    t.sched.stats .enq + settled s.sched + countSteps (step m) (spills m) s es =
      s.sched.stats .enq + settled t.sched + countSteps (step m) removes s es := by
  rw [countSteps_eq_sumSteps, countSteps_eq_sumSteps]
  apply sumSteps_balance (I := fun s => ∃ w, Placed s w) (f := fun s => s.sched.stats .enq)
    (g := fun s => settled s.sched) (fun s e t => placed_of_step) ?_ es ⟨w, hw⟩ hrun
  rintro s e t ⟨w, hw⟩ hstep
  obtain ⟨k, hadds⟩ := step_adds hw.direct hstep
  have henq := hadds.enq
  have hsettled := hadds.settled
  omega

theorem run_selections (hw : Placed s w) (hrun : run (step m) s es = some t) :
    selections t.sched = selections s.sched + countSteps (step m) (selects m) s es +
      countSteps (step m) (spills m) s es := by
  rw [countSteps_eq_sumSteps, countSteps_eq_sumSteps, Nat.add_assoc, ← sumSteps_add]
  have hbalance : selections t.sched + 0 + sumSteps (step m) (fun _ _ => 0) s es =
      selections s.sched + 0 +
        sumSteps (step m) (fun s e => (selects m s e).toNat + (spills m s e).toNat) s es := by
    apply sumSteps_balance (I := fun s => ∃ w, Placed s w) (f := fun s => selections s.sched)
      (g := fun _ => 0) (fun s e t => placed_of_step) ?_ es ⟨w, hw⟩ hrun
    rintro s e t ⟨w, hw⟩ hstep
    obtain ⟨k, hadds⟩ := step_adds hw.direct hstep
    have hselections := hadds.selections
    omega
  rw [sumSteps_zero] at hbalance
  omega

/-- A wakeup that spills is counted as one. -/
theorem run_spills (hw : Placed s w) (hrun : run (step m) s es = some t) :
    s.sched.stats .steal + countSteps (step m) (spills m) s es ≤ t.sched.stats .steal ∧
      s.sched.stats .direct + countSteps (step m) (spills m) s es ≤ t.sched.stats .direct := by
  rw [countSteps_eq_sumSteps]
  constructor
  · apply sumSteps_le (I := fun s => ∃ w, Placed s w) (f := fun s => s.sched.stats .steal)
      (fun s e t => placed_of_step) ?_ es ⟨w, hw⟩ hrun
    rintro s e t ⟨w, hw⟩ hstep
    obtain ⟨k, hadds⟩ := step_adds hw.direct hstep
    exact hadds.steal
  · apply sumSteps_le (I := fun s => ∃ w, Placed s w) (f := fun s => s.sched.stats .direct)
      (fun s e t => placed_of_step) ?_ es ⟨w, hw⟩ hrun
    rintro s e t ⟨w, hw⟩ hstep
    obtain ⟨k, hadds⟩ := step_adds hw.direct hstep
    exact hadds.direct

/-- What the counters say of a run from the start, all of it in one place. -/
theorem run_counters (hinit : Init m s) (hrun : run (step m) s es = some t) :
    t.sched.stats .enq = t.sched.stats .dsqBig + t.sched.stats .dsqLittle ∧
      t.sched.stats .enq + countSteps (step m) (spills m) s es =
        t.sched.stats .localHit + t.sched.stats .steal + queued t.sched +
          countSteps (step m) removes s es ∧
      t.sched.stats .direct + t.sched.stats .noIdleInDom =
        countSteps (step m) (selects m) s es + countSteps (step m) (spills m) s es ∧
      countSteps (step m) (spills m) s es ≤ t.sched.stats .steal ∧
      countSteps (step m) (spills m) s es ≤ t.sched.stats .direct := by
  have hw := placed_init hinit
  have henq := run_enq hw hrun
  have hsettled := run_settled hw hrun
  have hselections := run_selections hw hrun
  have hspills := run_spills hw hrun
  have hstats : ∀ i, s.sched.stats i = 0 := fun i => by rw [hinit.sched]; rfl
  have hdsq : ∀ d, s.sched.dsq d = [] := fun d => by rw [hinit.sched]; rfl
  simp only [classes, settled, selections, queued, hstats, hdsq, List.length_nil]
    at henq hsettled hselections hspills ⊢
  omega

end Runs

/-- **The counters conserve work.** Every task that was enqueued was counted by its class, and
has been dispatched at home or across, still waits, or was taken off by the kernel. Every call
of `select_cpu` was counted once. -/
theorem counters_conserve (m : Machine T) (s₀ s : Sys T) (hinit : Init m s₀)
    (es : List (Event T)) (hrun : run (step m) s₀ es = some s) :
    s.sched.stats .enq = s.sched.stats .dsqBig + s.sched.stats .dsqLittle ∧
      countSteps (step m) (spills m) s₀ es ≤ s.sched.stats .steal ∧
      s.sched.stats .enq =
        s.sched.stats .localHit +
          (s.sched.stats .steal - countSteps (step m) (spills m) s₀ es) +
          ((s.sched.dsq .big).length + (s.sched.dsq .little).length) +
          countSteps (step m) removes s₀ es ∧
      countSteps (step m) (spills m) s₀ es ≤ s.sched.stats .direct ∧
      countSteps (step m) (selects m) s₀ es =
        (s.sched.stats .direct - countSteps (step m) (spills m) s₀ es) +
          s.sched.stats .noIdleInDom := by
  obtain ⟨henq, hsettled, hselections, hsteal, hdirect⟩ := run_counters hinit hrun
  unfold queued at hsettled
  omega

/-- Two wakeups on two cores: one lands at home, the other spills. -/
theorem counters_conserve_pair :
    ∃ s, run (step (pairMachine .adaptive false)) pairStart
        [.attach 1, .attach 2, .wakeup 1 0 0, .wakeup 2 0 0] = some s ∧
      s.sched.stats .enq = s.sched.stats .dsqBig + s.sched.stats .dsqLittle ∧
      1 ≤ s.sched.stats .steal ∧
      s.sched.stats .enq =
        s.sched.stats .localHit + (s.sched.stats .steal - 1) +
          ((s.sched.dsq .big).length + (s.sched.dsq .little).length) + 0 ∧
      1 ≤ s.sched.stats .direct ∧
      2 = (s.sched.stats .direct - 1) + s.sched.stats .noIdleInDom :=
  ⟨_, rfl, counters_conserve (pairMachine .adaptive false) pairStart _
    (pairStart_init .adaptive false) [.attach 1, .attach 2, .wakeup 1 0 0, .wakeup 2 0 0] rfl⟩

end FakeBigLittle
