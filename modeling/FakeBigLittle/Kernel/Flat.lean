import FakeBigLittle.Kernel.CommRules

/-!
# The flat control

With `--flat` the scheduler should be a scheduler with one FIFO. That scheduler is written
down here without domains, classes or modes, and the real one takes the same steps.
-/

namespace FakeBigLittle

open Runs

variable {T : Type}

/-! ## The reference scheduler -/

structure FifoSched (T : Type) where
  known : T → Bool
  running : Nat → Option T
  runnable : T → Bool
  idle : Nat → Bool
  kicked : Nat → Bool
  fifo : List (Queued T)
  localDsq : Nat → List (Queued T)

def lowestIdle (m : Machine T) (p : T) (idle : Nat → Bool) : Option Nat :=
  (List.range m.nrCpus).find? fun i => m.cpusPtr p i && idle i

/-- The CPU of an awakened task: the previous one if it is idle, else the lowest idle one. -/
def wakeCpu (m : Machine T) (p : T) (prevCpu : Int) (idle : Nat → Bool) : Option Nat :=
  if 0 ≤ prevCpu ∧ idle prevCpu.toNat = true then some prevCpu.toNat else lowestIdle m p idle

variable [DecidableEq T]

def push (m : Machine T) (s : FifoSched T) (p : T) (enqFlags : UInt64) : FifoSched T :=
  { s with
    runnable := Function.update s.runnable p true
    fifo := s.fifo ++ [⟨p, m.sliceBigNs, enqFlags⟩]
    idle := setBit s.idle (lowestIdle m p s.idle) false
    kicked := setBit s.kicked (lowestIdle m p s.idle) true }

def runOn (m : Machine T) (s : FifoSched T) (p : T) (cpu : Nat) : FifoSched T :=
  { s with
    runnable := Function.update s.runnable p true
    idle := Function.update s.idle cpu false
    localDsq := Function.update s.localDsq cpu (s.localDsq cpu ++ [⟨p, m.sliceBigNs, 0⟩]) }

def vacate (s : FifoSched T) (p : T) (cpu : Nat) : FifoSched T :=
  { s with
    running := Function.update s.running cpu none
    runnable := Function.update s.runnable p false }

omit [DecidableEq T] in
/-- The first task in FIFO order that `cpu` may run goes there. -/
def pull (m : Machine T) (s : FifoSched T) (cpu : Nat) : FifoSched T :=
  match s.fifo.find? fun q => m.cpusPtr q.task cpu with
  | none => s
  | some q =>
    { s with
      fifo := s.fifo.eraseP fun q => m.cpusPtr q.task cpu
      localDsq := Function.update s.localDsq cpu (s.localDsq cpu ++ [q]) }

omit [DecidableEq T] in
def rest (s : FifoSched T) (cpu : Nat) : FifoSched T :=
  { s with
    kicked := Function.update s.kicked cpu false
    idle := if s.running cpu = none ∧ s.localDsq cpu = [] then Function.update s.idle cpu true
      else s.idle }

def fifoStep (m : Machine T) (s : FifoSched T) : Event T → Option (FifoSched T)
  | .attach p =>
    if s.known p then none else some { s with known := Function.update s.known p true }
  | .fork parent child =>
    if !s.known parent || s.known child then none
    else some { s with known := Function.update s.known child true }
  | .exec p _ => if !s.known p then none else some s
  | .wakeup p prevCpu enqFlags =>
    if !(s.known p && !s.runnable p) then none
    else if pinned m p then some (push m s p enqFlags)
    else
      match wakeCpu m p prevCpu s.idle with
      | some cpu => some (runOn m s p cpu)
      | none => some (push m s p enqFlags)
  | .enqueue p enqFlags =>
    if !(s.known p && !s.runnable p) then none else some (push m s p enqFlags)
  | .dequeue p =>
    if s.fifo.any fun q => q.task = p then
      some { s with
        fifo := s.fifo.eraseP fun q => q.task = p
        runnable := Function.update s.runnable p false }
    else none
  | .expire cpu _ enqFlags =>
    match s.running cpu with
    | none => none
    | some p => some (push m (vacate s p cpu) p enqFlags)
  | .block cpu _ =>
    match s.running cpu with
    | none => none
    | some p => some (vacate s p cpu)
  | .dispatch cpu => if cpu < m.nrCpus then some (rest (pull m s cpu) cpu) else none
  | .run cpu _ =>
    match s.running cpu, s.localDsq cpu with
    | none, q :: queue =>
      some { s with
        running := Function.update s.running cpu (some q.task)
        localDsq := Function.update s.localDsq cpu queue
        idle := Function.update s.idle cpu false
        kicked := Function.update s.kicked cpu false }
    | _, _ => none

omit [DecidableEq T] in
/-- The BIG DSQ is the FIFO. Classes, counters and task storage are forgotten. -/
def abs (s : Sys T) : FifoSched T where
  known := fun p => (s.sched.taskCtx p).isSome
  running := s.running
  runnable := s.runnable
  idle := s.sched.idle
  kicked := s.sched.kicked
  fifo := s.sched.dsq .big
  localDsq := s.sched.localDsq

/-! ## What stays inert -/

/-- The counters that only a partition can raise. -/
def Quiet (stats : Stat → Nat) : Prop :=
  stats .dsqLittle = 0 ∧ stats .steal = 0 ∧ stats .reclassify = 0 ∧ stats .runLittleMs = 0

theorem quiet_bump {stats : Stat → Nat} (h : Quiet stats) (n : Nat) {i : Stat}
    (hl : Stat.dsqLittle ≠ i) (hs : Stat.steal ≠ i) (hr : Stat.reclassify ≠ i)
    (hm : Stat.runLittleMs ≠ i) : Quiet (bump stats i n) := by
  unfold Quiet
  rw [bump_ne _ _ hl, bump_ne _ _ hs, bump_ne _ _ hr, bump_ne _ _ hm]
  exact h

/-- The part of the invariant that the callbacks keep by themselves. -/
structure FlatSched (m : Machine T) (s : Sched T) : Prop where
  idle_lt : ∀ cpu, s.idle cpu = true → cpu < m.nrCpus
  big : ∀ p d, ctxDom s p = some d → d = .big
  quiet : Quiet s.stats

structure FlatInv (m : Machine T) (s : Sys T) : Prop where
  placed : ∃ w, Placed s w
  agree : Agree m s.sched
  flat : FlatSched m s.sched

omit [DecidableEq T] in
theorem taskDom_flat {s : Sched T} (h : ∀ p d, ctxDom s p = some d → d = .big) (p : T) :
    taskDom s p = .big := by
  unfold taskDom
  cases htc : s.taskCtx p with
  | none => rfl
  | some tc => exact h p tc.domain (by simp [ctxDom, htc])

omit [DecidableEq T] in
theorem FlatInv.little {m : Machine T} {s : Sys T} (h : FlatInv m s) :
    s.sched.dsq .little = [] := by
  rw [List.eq_nil_iff_forall_not_mem]
  intro q hq
  exact absurd (h.flat.big q.task .little (h.agree.shared .little q hq)) (by simp)

omit [DecidableEq T] in
theorem firstIdle_flat {m : Machine T} (hflat : IsFlat m.toConfig) (p : T)
    (idle : Nat → Bool) : firstIdle m p .big idle = lowestIdle m p idle := by
  unfold firstIdle lowestIdle
  simp [domOfCpu_of_all_big _ hflat.big]

omit [DecidableEq T] in
theorem firstIdle_flat_little {m : Machine T} (hflat : IsFlat m.toConfig) (p : T)
    (idle : Nat → Bool) : firstIdle m p .little idle = none := by
  unfold firstIdle
  simp [domOfCpu_of_all_big _ hflat.big]

omit [DecidableEq T] in
theorem pickedCpu_flat {m : Machine T} (hflat : IsFlat m.toConfig) (p : T) (prevCpu : Int)
    {idle : Nat → Bool} (hidle : ∀ cpu, idle cpu = true → cpu < m.nrCpus) :
    pickedCpu m p .big prevCpu idle = wakeCpu m p prevCpu idle := by
  unfold pickedCpu wakeCpu
  rw [firstIdle_flat hflat]
  -- An idle CPU is below `nr_cpus`, so the bound on `prev_cpu` never decides.
  refine if_congr ⟨fun h => ⟨h.1, h.2.2.2⟩, fun h => ⟨h.1, ?_, ?_, h.2⟩⟩ rfl rfl
  · have := hidle _ h.2
    have := m.nrCpus_le
    omega
  · exact domOfCpu_of_all_big _ hflat.big _

omit [DecidableEq T] in
theorem not_adapts_flat {m : Machine T} (hflat : IsFlat m.toConfig) (tc : TaskCtx)
    (now : UInt64) : ¬ adapts m.toConfig tc now :=
  not_adapts_of_mode tc (by simp [hflat.mode]) (by simp [hflat.mode]) now

theorem quiet_stopping {m : Machine T} (hflat : IsFlat m.toConfig) (p : T) (now : UInt64)
    (cpu : Nat) {s : Sched T} (h : Quiet s.stats) : Quiet (blsStopping m p now cpu s).stats := by
  unfold blsStopping
  cases htc : s.taskCtx p with
  | none => exact h
  | some tc =>
    simp only [domOfCpu_of_all_big _ hflat.big, hflat.mode, reduceCtorEq, if_false]
    by_cases hstart : tc.startedAt = 0
    · rw [if_pos hstart]
      exact h
    · -- No mode but ADAPTIVE and HYBRID gets past the guard.
      have hguard : (tc.commPinned ||
          (ClassifyMode.flat != .adaptive && ClassifyMode.flat != .hybrid)) = true :=
        Bool.or_eq_true_iff.mpr (Or.inr rfl)
      rw [if_neg hstart, if_pos hguard]
      exact quiet_bump h _ (by simp) (by simp) (by simp) (by simp)

/-! ## One event -/

theorem big_stopping {m : Machine T} (hflat : IsFlat m.toConfig) {s : Sched T}
    (h : ∀ p d, ctxDom s p = some d → d = .big) (p : T) (now : UInt64) (cpu : Nat) (q : T)
    (d : Dom) (hd : ctxDom (blsStopping m p now cpu s) q = some d) : d = .big := by
  rcases eq_or_ne q p with rfl | hne
  · rw [ctxDom_stopping_same m q now cpu s fun tc _ => not_adapts_flat hflat tc now] at hd
    exact h q d hd
  · rw [ctxDom_others (blsStopping_ctxOnly ..) hne] at hd
    exact h q d hd

theorem flat_initTask {m : Machine T} (hflat : IsFlat m.toConfig) {s : Sched T}
    (h : FlatSched m s) (p : T) (comm : Option Comm) :
    FlatSched m (blsInitTask m p comm true s).2 := by
  have hctx := blsInitTask_ctxOnly m p comm true s
  refine ⟨fun cpu hcpu => h.idle_lt cpu (hctx.idle ▸ hcpu), fun q d hd => ?_, ?_⟩
  · rcases eq_or_ne q p with rfl | hne
    · rw [ctxDom_initTask, initialDomain_flat _ _ hflat.mode, Option.some.injEq] at hd
      exact hd.symm
    · rw [ctxDom_others hctx hne] at hd
      exact h.big q d hd
  · simpa [Quiet, blsInitTask_stats] using h.quiet

theorem flat_stopping {m : Machine T} (hflat : IsFlat m.toConfig) {s : Sched T}
    (h : FlatSched m s) (p : T) (now : UInt64) (cpu : Nat) :
    FlatSched m (blsStopping m p now cpu s) := by
  have hctx := blsStopping_ctxOnly m p now cpu s
  exact ⟨fun i hi => h.idle_lt i (hctx.idle ▸ hi), big_stopping hflat h.big p now cpu,
    quiet_stopping hflat p now cpu h.quiet⟩

omit [DecidableEq T] in
theorem flat_enqueue {m : Machine T} {s : Sched T} (h : FlatSched m s) (p : T) (f : UInt64) :
    FlatSched m (blsEnqueue m p f s) := by
  rw [blsEnqueue_eq, taskDom_flat h.big]
  refine ⟨fun cpu hcpu => h.idle_lt cpu (setBit_false hcpu).1, h.big, ?_⟩
  exact quiet_bump (quiet_bump h.quiet 1 (by simp) (by simp) (by simp) (by simp)) 1 (by simp)
    (by simp) (by simp) (by simp)

omit [DecidableEq T] in
theorem flat_dispatch {m : Machine T} (hflat : IsFlat m.toConfig) {s : Sched T}
    (h : FlatSched m s) (hlittle : s.dsq .little = []) (cpu : Nat) :
    FlatSched m (blsDispatch m cpu s) := by
  rcases blsDispatch_cases m cpu s with ⟨q, -, heq⟩ | ⟨q, -, -, hq, -⟩ | ⟨-, -, heq⟩
  · rw [heq]
    exact ⟨h.idle_lt, h.big, quiet_bump h.quiet 1 (by simp) (by simp) (by simp) (by simp)⟩
  · -- There is nothing to steal.
    rw [domOfCpu_of_all_big _ hflat.big, Dom.other, hlittle] at hq
    exact absurd hq (by simp)
  · rwa [heq]

theorem flat_step {m : Machine T} (hflat : IsFlat m.toConfig) {s t : Sys T} {e : Event T}
    (hdirect : s.sched.direct = []) (h : FlatSched m s.sched)
    (hlittle : s.sched.dsq .little = []) (hstep : step m s e = some t) :
    FlatSched m t.sched := by
  cases e with
  | attach p =>
    obtain ⟨-, rfl⟩ := step_attach hstep
    exact flat_initTask hflat h p _
  | fork parent child =>
    obtain ⟨-, -, rfl⟩ := step_fork hstep
    exact flat_initTask hflat h child _
  | exec p comm =>
    obtain ⟨-, rfl⟩ := step_exec hstep
    exact h
  | wakeup p prevCpu f =>
    obtain ⟨-, ⟨-, rfl⟩ | ⟨-, cpu, -, rfl⟩ | ⟨-, cpu, -, -, hother, -⟩ | ⟨-, -, -, rfl⟩⟩ :=
      step_wakeup hdirect hstep
    · exact flat_enqueue h p f
    · refine ⟨fun c hc => h.idle_lt c (@setBit_false _ (some cpu) _ hc).1, h.big, ?_⟩
      exact quiet_bump h.quiet 1 (by simp) (by simp) (by simp) (by simp)
    · rw [taskDom_flat h.big, Dom.other, firstIdle_flat_little hflat] at hother
      exact absurd hother (by simp)
    · refine flat_enqueue (s := statAdd s.sched .noIdleInDom 1) ⟨h.idle_lt, h.big, ?_⟩ p f
      exact quiet_bump h.quiet 1 (by simp) (by simp) (by simp) (by simp)
  | enqueue p f =>
    obtain ⟨-, rfl⟩ := step_enqueue hstep
    exact flat_enqueue h p f
  | dequeue p =>
    obtain ⟨d, -, rfl⟩ := step_dequeue hstep
    exact ⟨h.idle_lt, h.big, h.quiet⟩
  | expire cpu now f =>
    obtain ⟨p, -, rfl⟩ := step_expire hstep
    exact flat_enqueue (flat_stopping hflat h p now cpu) p f
  | block cpu now =>
    obtain ⟨p, -, rfl⟩ := step_block hstep
    exact flat_stopping hflat h p now cpu
  | dispatch cpu =>
    obtain ⟨hcpu, rfl⟩ := step_dispatch hstep
    have hd := flat_dispatch hflat h hlittle cpu
    refine ⟨fun c hc => ?_, fun p d hp => hd.big p d ?_, ?_⟩
    · unfold settle at hc
      simp only at hc
      split_ifs at hc
      · rcases eq_or_ne c cpu with rfl | hne
        · exact hcpu
        · simp only [Function.update_of_ne hne] at hc
          exact hd.idle_lt c hc
      · exact hd.idle_lt c hc
    · rwa [ctxDom_settle] at hp
    · unfold settle
      simp only
      split_ifs <;> exact hd.quiet
  | run cpu now =>
    obtain ⟨-, q, queue, -, rfl⟩ := step_run hstep
    have hctx := blsRunning_ctxOnly q.task now (popLocal s.sched cpu queue)
    refine ⟨fun c hc => ?_, fun p d hp => ?_, ?_⟩
    · rw [hctx.idle] at hc
      exact h.idle_lt c (@setBit_false _ (some cpu) _ hc).1
    · rw [ctxDom_blsRunning] at hp
      exact h.big p d hp
    · rw [blsRunning_stats]
      exact h.quiet

theorem flatInv_step {m : Machine T} (hflat : IsFlat m.toConfig) {s t : Sys T} {e : Event T}
    (h : FlatInv m s) (hstep : step m s e = some t) : FlatInv m t := by
  have hlittle := h.little
  obtain ⟨⟨w, hw⟩, hagree, hsched⟩ := h
  obtain ⟨w', hw', -⟩ := placed_step hw hstep
  exact ⟨⟨w', hw'⟩, agree_step hw hagree hstep, flat_step hflat hw.direct hsched hlittle hstep⟩

/-! ## The simulation -/

theorem abs_adopt (m : Machine T) (s : Sys T) (p : T) :
    abs (adopt m s p) = { abs s with known := Function.update (abs s).known p true } := by
  have hctx := blsInitTask_ctxOnly m p (some (s.comm p)) true s.sched
  obtain ⟨tc, htc, -⟩ := blsInitTask_ctx m p (some (s.comm p)) s.sched
  unfold abs adopt
  simp only [hctx.idle, hctx.kicked, hctx.dsq, hctx.localDsq, FifoSched.mk.injEq, and_true]
  funext q
  rcases eq_or_ne q p with rfl | hne
  · simp [htc]
  · simp [hne, hctx.others q hne]

theorem abs_enter {m : Machine T} (hflat : IsFlat m.toConfig) {s : Sys T}
    (h : FlatSched m s.sched) (p : T) (f : UInt64) :
    abs (enter m s p f) = push m (abs s) p f := by
  unfold abs enter
  rw [blsEnqueue_eq, taskDom_flat h.big, firstIdle_flat hflat]
  simp only [Function.update_self]
  rfl

theorem abs_leave (m : Machine T) (s : Sys T) (p : T) (cpu : Nat) (now : UInt64) :
    abs (leave m s p cpu now) = vacate (abs s) p cpu := by
  have hctx := blsStopping_ctxOnly m p now cpu s.sched
  unfold abs leave vacate
  simp only [hctx.idle, hctx.kicked, hctx.dsq, hctx.localDsq, blsStopping_isSome]

omit [DecidableEq T] in
theorem abs_dispatch {m : Machine T} (hflat : IsFlat m.toConfig) {s : Sys T}
    (hlittle : s.sched.dsq .little = []) (cpu : Nat) :
    abs { s with sched := blsDispatch m cpu s.sched } = pull m (abs s) cpu := by
  have hown := domOfCpu_of_all_big _ hflat.big cpu
  unfold pull
  rcases blsDispatch_cases m cpu s.sched with ⟨q, hq, heq⟩ | ⟨q, -, -, hq, -⟩ | ⟨hq, -, heq⟩
  · rw [hown] at hq heq
    rw [heq]
    simp only [abs, hq, moved, Function.update_self]
  · rw [hown, Dom.other, hlittle] at hq
    exact absurd hq (by simp)
  · rw [hown] at hq
    rw [heq]
    simp only [abs, hq]

omit [DecidableEq T] in
theorem abs_settle (s : Sys T) (cpu : Nat) : abs (settle s cpu) = rest (abs s) cpu := by
  unfold settle rest abs
  simp only
  split_ifs <;> rfl

theorem abs_wakeup {m : Machine T} (hflat : IsFlat m.toConfig) {s : Sys T}
    (hdirect : s.sched.direct = []) (h : FlatSched m s.sched) (p : T) (prevCpu : Int)
    (f : UInt64) :
    (step m s (.wakeup p prevCpu f)).map abs = fifoStep m (abs s) (.wakeup p prevCpu f) := by
  simp only [step, fifoStep]
  -- The two guards are the same up to unfolding.
  by_cases hwake : (!canWake s p) = true
  · rw [if_pos hwake]
    exact (if_pos hwake).symm
  rw [if_neg hwake]
  refine Eq.trans ?_ (if_neg hwake).symm
  by_cases hpin : pinned m p = true
  · rw [if_pos hpin, if_pos hpin]
    exact congrArg some (abs_enter hflat h p f)
  · rw [if_neg hpin, if_neg hpin]
    have hpick := pickedCpu_flat hflat p prevCpu h.idle_lt
    have hidle : (abs s).idle = s.sched.idle := rfl
    rw [hidle, ← hpick]
    rcases blsSelectCpu_cases m p prevCpu s.sched with
      ⟨cpu, hown, heq⟩ | ⟨cpu, -, -, hother, -⟩ | ⟨hown, -, heq⟩
    · rw [taskDom_flat h.big] at hown heq
      rw [heq, hown]
      simp only [hdirect, List.nil_append, List.isEmpty_cons, Bool.false_eq_true, if_false]
      simp only [Option.map_some, abs, runOn, deliver, wake, setBit_some, Int.toNat_natCast]
      rfl
    · rw [taskDom_flat h.big, Dom.other, firstIdle_flat_little hflat] at hother
      exact absurd hother (by simp)
    · rw [taskDom_flat h.big] at hown
      rw [heq, hown]
      dsimp only
      rw [if_pos (show s.sched.direct.isEmpty = true by rw [hdirect]; rfl)]
      exact congrArg some
        (abs_enter (s := { s with sched := statAdd s.sched .noIdleInDom 1 }) hflat
          ⟨h.idle_lt, h.big, quiet_bump h.quiet 1 (by simp) (by simp) (by simp) (by simp)⟩ p f)

theorem abs_step {m : Machine T} (hflat : IsFlat m.toConfig) (s : Sys T) (e : Event T)
    (h : FlatInv m s) : (step m s e).map abs = fifoStep m (abs s) e := by
  have hlittle := h.little
  have hunknown : ∀ p, (s.sched.taskCtx p).isNone = !(abs s).known p :=
    fun p => (Option.not_isSome _).symm
  obtain ⟨⟨w, hw⟩, -, hsched⟩ := h
  cases e with
  | attach p =>
    simp only [step, fifoStep]
    rw [apply_ite (Option.map abs), Option.map_some, abs_adopt]
    rfl
  | fork parent child =>
    simp only [step, fifoStep, hunknown]
    rw [apply_ite (Option.map abs), Option.map_some, abs_adopt]
    rfl
  | exec p comm =>
    simp only [step, fifoStep, hunknown]
    rw [apply_ite (Option.map abs)]
    rfl
  | wakeup p prevCpu f => exact abs_wakeup hflat hw.direct hsched p prevCpu f
  | enqueue p f =>
    simp only [step, fifoStep]
    rw [apply_ite (Option.map abs), Option.map_some, abs_enter hflat hsched]
    rfl
  | dequeue p =>
    have hno : ¬ waitsOn s p .little = true := by simp [waitsOn, hlittle]
    have hout : abs (unqueue s p .big) = { abs s with
        fifo := (abs s).fifo.eraseP fun q => q.task = p
        runnable := Function.update (abs s).runnable p false } := by
      simp [abs, unqueue]
    simp only [step, fifoStep]
    rw [if_neg hno, apply_ite (Option.map abs), Option.map_some, hout]
    rfl
  | expire cpu now f =>
    simp only [step, fifoStep]
    have hrun : (abs s).running = s.running := rfl
    rw [hrun]
    cases s.running cpu with
    | none => rfl
    | some p =>
      have := abs_enter (s := leave m s p cpu now) hflat (flat_stopping hflat hsched p now cpu) p f
      rw [abs_leave] at this
      exact congrArg some this
  | block cpu now =>
    simp only [step, fifoStep]
    have hrun : (abs s).running = s.running := rfl
    rw [hrun]
    cases s.running cpu with
    | none => rfl
    | some p => exact congrArg some (abs_leave m s p cpu now)
  | dispatch cpu =>
    simp only [step, fifoStep]
    rw [apply_ite (Option.map abs), Option.map_some, abs_settle, abs_dispatch hflat hlittle]
    rfl
  | run cpu now =>
    simp only [step, fifoStep]
    have hrun : (abs s).running = s.running := rfl
    have hloc : (abs s).localDsq = s.sched.localDsq := rfl
    rw [hrun, hloc]
    cases s.running cpu with
    | some p => rfl
    | none =>
      cases s.sched.localDsq cpu with
      | nil => rfl
      | cons q queue =>
        have hctx := blsRunning_ctxOnly q.task now (popLocal s.sched cpu queue)
        simp only [Option.map_some, abs, hctx.idle, hctx.kicked, hctx.dsq, hctx.localDsq,
          blsRunning_isSome]
        rfl

/-! ## Runs -/

omit [DecidableEq T] in
theorem flatInv_init {m : Machine T} {s : Sys T} (h : Init m s) : FlatInv m s := by
  refine ⟨⟨_, placed_init h⟩, ?_, h.idle_lt, ?_, ?_⟩
  · rw [h.sched]
    exact ⟨by simp [Sched.start], by simp [Sched.start], fun _ => rfl⟩
  · rw [h.sched]
    simp [ctxDom, Sched.start]
  · rw [h.sched]
    exact ⟨rfl, rfl, rfl, rfl⟩

/-- **The flat control is a scheduler with one FIFO.** Event by event it takes the steps of
the reference scheduler, every task stays BIG, and the counters of the partition stay 0. -/
theorem flat_refines (m : Machine T) (hflat : IsFlat m.toConfig) (s : Sys T) (hinit : Init m s)
    (es : List (Event T)) :
    (run (step m) s es).map abs = run (fifoStep m) (abs s) es ∧
      ∀ t, run (step m) s es = some t →
        (∀ p d, ctxDom t.sched p = some d → d = .big) ∧ t.sched.dsq .little = [] ∧
        t.sched.stats .dsqLittle = 0 ∧ t.sched.stats .steal = 0 ∧
        t.sched.stats .reclassify = 0 ∧ t.sched.stats .runLittleMs = 0 := by
  constructor
  · exact run_map (fun s e t h hstep => flatInv_step hflat h hstep) (abs_step hflat) es
      (flatInv_init hinit)
  · intro t hrun
    have h := inv_run (fun s e t h hstep => flatInv_step hflat h hstep) es (flatInv_init hinit) hrun
    exact ⟨h.flat.big, h.little, h.flat.quiet⟩

/-- Two cores, run with `--flat`. -/
def flatPair (strict : Bool) : Machine Nat :=
  { pairMachine .flat strict with cpuDom := fun _ => .big }

theorem flat_refines_pair :
    ∃ t, run (step (flatPair true)) pairStart
        [.attach 0, .attach 1, .wakeup 1 1 0, .run 1 1, .expire 1 2 0, .dispatch 0] = some t ∧
      run (fifoStep (flatPair true)) (abs pairStart)
        [.attach 0, .attach 1, .wakeup 1 1 0, .run 1 1, .expire 1 2 0, .dispatch 0] =
          some (abs t) ∧
      t.sched.stats .reclassify = 0 := by
  have hinit : Init (flatPair true) pairStart :=
    ⟨rfl, fun _ h => of_decide_eq_true h, fun _ => rfl, fun _ => rfl⟩
  obtain ⟨t, hrun⟩ : ∃ t, run (step (flatPair true)) pairStart
      [.attach 0, .attach 1, .wakeup 1 1 0, .run 1 1, .expire 1 2 0, .dispatch 0] = some t :=
    ⟨_, rfl⟩
  obtain ⟨hsim, hquiet⟩ := flat_refines (flatPair true) ⟨rfl, fun _ => rfl⟩ pairStart hinit
    [.attach 0, .attach 1, .wakeup 1 1 0, .run 1 1, .expire 1 2 0, .dispatch 0]
  rw [hrun] at hsim
  exact ⟨t, hrun, hsim.symm, (hquiet t hrun).2.2.2.2.1⟩

end FakeBigLittle
