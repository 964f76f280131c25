import FakeBigLittle.Common
import Mathlib.Logic.Function.Basic

/-!
# The BPF scheduler

`src/bls.bpf.c`, one definition per function, and above it the kfuncs that it calls: the
idle mask, the kicks and the dispatch queues of sched_ext. A wakeup and a slice expiry
never ask for the head of a queue, so a DSQ is a FIFO here.
-/

namespace FakeBigLittle

variable {T : Type}

-- `struct task_ctx`
structure TaskCtx where
  execEwmaNs : UInt64 := 0
  startedAt : UInt64 := 0
  ranBigNs : UInt64 := 0
  ranLittleNs : UInt64 := 0
  domain : Dom := .big
  /-- the domain came from a comm rule; do not adapt -/
  commPinned : Bool := false

/-- A task on a DSQ, with what `scx_bpf_dsq_insert` was told about it. -/
structure Queued (T : Type) where
  task : T
  slice : UInt64
  enqFlags : UInt64

/-- The ids of the DSQs that the scheduler inserts into. -/
inductive DsqId where
  /-- `SCX_DSQ_LOCAL` -/
  | localDsq
  | shared (d : Dom)

/-- A configured machine: its tasks' affinity masks hold CPUs below `nrCpus` only, and
none of them is empty. -/
structure Machine (T : Type) extends Config where
  nrCpus_le : nrCpus ≤ blsMaxCpus
  /-- `bpf_cpumask_test_cpu(cpu, p->cpus_ptr)` -/
  cpusPtr : T → Nat → Bool
  cpusPtr_lt : ∀ p cpu, cpusPtr p cpu = true → cpu < nrCpus
  cpusPtr_ne : ∀ p, ∃ cpu, cpusPtr p cpu = true

/-- Everything that the callbacks read and write. -/
structure Sched (T : Type) where
  /-- the `task_ctxs` storage -/
  taskCtx : T → Option TaskCtx
  /-- the `stats` array, summed over the CPUs as `read_stats` does -/
  stats : Stat → Nat
  idle : Nat → Bool
  kicked : Nat → Bool
  dsq : Dom → List (Queued T)
  localDsq : Nat → List (Queued T)
  /-- inserted into `SCX_DSQ_LOCAL` by a `select_cpu` that has not returned yet -/
  direct : List (Queued T)

/-! ## The kfuncs -/

-- `scx_bpf_dsq_insert(p, dsq_id, slice, enq_flags)`
def scxBpfDsqInsert (s : Sched T) (p : T) (id : DsqId) (slice enqFlags : UInt64) : Sched T :=
  match id with
  | .localDsq => { s with direct := s.direct ++ [⟨p, slice, enqFlags⟩] }
  | .shared d =>
    { s with dsq := Function.update s.dsq d (s.dsq d ++ [⟨p, slice, enqFlags⟩]) }

/-- `scx_bpf_dsq_move_to_local(dsq_id)` on `cpu`: the first task that may run there. -/
def scxBpfDsqMoveToLocal (m : Machine T) (s : Sched T) (cpu : Nat) (d : Dom) :
    Bool × Sched T :=
  match (s.dsq d).find? fun q => m.cpusPtr q.task cpu with
  | none => (false, s)
  | some q =>
    (true, { s with
      dsq := Function.update s.dsq d ((s.dsq d).eraseP fun q => m.cpusPtr q.task cpu)
      localDsq := Function.update s.localDsq cpu (s.localDsq cpu ++ [q]) })

-- `scx_bpf_test_and_clear_cpu_idle(cpu)`
def scxBpfTestAndClearCpuIdle (s : Sched T) (cpu : Nat) : Bool × Sched T :=
  (s.idle cpu, { s with idle := Function.update s.idle cpu false })

-- `scx_bpf_kick_cpu(cpu, SCX_KICK_IDLE)`
def scxBpfKickCpu (s : Sched T) (cpu : Nat) : Sched T :=
  { s with kicked := Function.update s.kicked cpu true }

/-! ## Small helpers of the program -/

def statAdd (s : Sched T) (i : Stat) (delta : Nat) : Sched T :=
  { s with stats := Function.update s.stats i (s.stats i + delta) }

-- What the callbacks write through the pointer `tc`.
def setCtx [DecidableEq T] (s : Sched T) (p : T) (tc : TaskCtx) : Sched T :=
  { s with taskCtx := Function.update s.taskCtx p (some tc) }

def domDsq (dom : Dom) : DsqId := .shared (if dom = .little then .little else .big)

def domSlice (c : Config) (dom : Dom) : UInt64 :=
  if dom = .little then c.sliceLittleNs else c.sliceBigNs

def domOfCpu (c : Config) (cpu : Int) : Dom :=
  if cpu < 0 ∨ cpu ≥ blsMaxCpus then .big
  else if c.cpuDom cpu.toNat = .little then .little else .big

-- `tc ? tc->domain : BLS_DOM_BIG`
def taskDom (s : Sched T) (p : T) : Dom :=
  match s.taskCtx p with
  | some tc => tc.domain
  | none => .big

/-! ## Classification -/

/-- The inner loop of `classify_by_comm`. The buffer is NUL-padded here: no rule of the
loader holds a NUL, so the comparison never passes the terminator. -/
def ruleMatches (rule : CommRule) (comm : Comm) : Bool :=
  (List.range blsCommLen).all fun j =>
    decide (rule.len ≤ j) || comm.byte j == rule.comm j

/-- The first rule that matches gives the domain; `none` is the -1 of the source. No
`comm` means that `bpf_probe_read_kernel_str` failed. -/
def classifyByComm (rules : Nat → CommRule) : Option Comm → Option Dom
  | none => none
  | some comm =>
    ((List.range blsMaxCommRules).find? fun i =>
      (rules i).len != 0 && decide ((rules i).len ≤ blsCommLen) &&
        ruleMatches (rules i) comm).map fun i => (rules i).domain

/-- The domain of a new task, and whether a rule pinned it. -/
def initialDomain (c : Config) (comm : Option Comm) : Dom × Bool :=
  match c.classifyMode with
  | .flat => (.big, false)
  | .comm =>
    match classifyByComm c.commRules comm with
    | some d => (d, true)
    | none => (.little, false)
  | .hybrid =>
    match classifyByComm c.commRules comm with
    | some d => (d, true)
    | none => (.little, false)
  -- Adaptive: assume light until proven otherwise.
  | .adaptive => (.little, false)

/-! ## Idle CPUs -/

/-- The loop that `pick_idle_in_dom` and `kick_idle_in_dom` share: claim the first idle
CPU of `dom` that `p` may use. -/
def claimIdle (m : Machine T) (p : T) (dom : Dom) : List Nat → Sched T → Option Nat × Sched T
  | [], s => (none, s)
  | i :: rest, s =>
    if i ≥ m.nrCpus then (none, s)
    else if domOfCpu m.toConfig i ≠ dom then claimIdle m p dom rest s
    else if !m.cpusPtr p i then claimIdle m p dom rest s
    else
      match scxBpfTestAndClearCpuIdle s i with
      | (true, s) => (some i, s)
      | (false, s) => claimIdle m p dom rest s

-- `none` is the -1 of the source.
def pickIdleInDom (m : Machine T) (p : T) (dom : Dom) (prevCpu : Int) (s : Sched T) :
    Option Nat × Sched T :=
  if prevCpu ≥ 0 ∧ prevCpu < blsMaxCpus ∧ domOfCpu m.toConfig prevCpu = dom then
    match scxBpfTestAndClearCpuIdle s prevCpu.toNat with
    | (true, s) => (some prevCpu.toNat, s)
    | (false, s) => claimIdle m p dom (List.range blsMaxCpus) s
  else claimIdle m p dom (List.range blsMaxCpus) s

def kickIdleInDom (m : Machine T) (p : T) (dom : Dom) (s : Sched T) : Sched T :=
  match claimIdle m p dom (List.range blsMaxCpus) s with
  | (some i, s) => scxBpfKickCpu s i
  | (none, s) => s

/-! ## The callbacks -/

/-- `ops.select_cpu`: the CPU it returns, and the state. -/
def blsSelectCpu (m : Machine T) (p : T) (prevCpu : Int) (s : Sched T) : Int × Sched T :=
  let dom := taskDom s p
  match pickIdleInDom m p dom prevCpu s with
  | (some cpu, s) =>
    (cpu, statAdd (scxBpfDsqInsert s p .localDsq (domSlice m.toConfig dom) 0) .direct 1)
  | (none, s) =>
    let s := statAdd s .noIdleInDom 1
    -- The domain is busy: spill to the other one, unless the mode is strict.
    if !m.strictDomains then
      match pickIdleInDom m p dom.other (-1) s with
      | (some cpu, s) =>
        let s := scxBpfDsqInsert s p .localDsq (domSlice m.toConfig dom) 0
        (cpu, statAdd (statAdd s .direct 1) .steal 1)
      | (none, s) => (prevCpu, s)
    else (prevCpu, s)

-- `ops.enqueue`
def blsEnqueue (m : Machine T) (p : T) (enqFlags : UInt64) (s : Sched T) : Sched T :=
  let dom := taskDom s p
  let s := statAdd s .enq 1
  let s := statAdd s (if dom = .little then .dsqLittle else .dsqBig) 1
  let s := scxBpfDsqInsert s p (domDsq dom) (domSlice m.toConfig dom) enqFlags
  kickIdleInDom m p dom s

/-- `ops.dispatch` on `cpu`. The previous task is an argument that the source ignores. -/
def blsDispatch (m : Machine T) (cpu : Nat) (s : Sched T) : Sched T :=
  let dom := domOfCpu m.toConfig cpu
  match scxBpfDsqMoveToLocal m s cpu dom with
  | (true, s) => statAdd s .localHit 1
  | (false, s) =>
    -- Work conservation, skipped with `--strict`.
    if m.strictDomains then s
    else
      match scxBpfDsqMoveToLocal m s cpu dom.other with
      | (true, s) => statAdd s .steal 1
      | (false, s) => s

-- `ops.running`; `now` is what `scx_bpf_now` reads.
def blsRunning [DecidableEq T] (p : T) (now : UInt64) (s : Sched T) : Sched T :=
  match s.taskCtx p with
  | some tc => setCtx s p { tc with startedAt := now }
  | none => s

def nsecPerMsec : UInt64 := 1000000

-- `ops.stopping`; `cpu` is the CPU that the callback executes on.
def blsStopping [DecidableEq T] (m : Machine T) (p : T) (now : UInt64) (cpu : Nat)
    (s : Sched T) : Sched T :=
  match s.taskCtx p with
  | none => s
  | some tc =>
    if tc.startedAt = 0 then s
    else
      let delta := now - tc.startedAt
      let tc := { tc with startedAt := 0 }
      let (tc, s) :=
        if domOfCpu m.toConfig cpu = .little then
          ({ tc with ranLittleNs := tc.ranLittleNs + delta },
            statAdd s .runLittleMs (delta / nsecPerMsec).toNat)
        else
          ({ tc with ranBigNs := tc.ranBigNs + delta },
            statAdd s .runBigMs (delta / nsecPerMsec).toNat)
      -- EWMA, alpha = 1/4.
      let tc := { tc with execEwmaNs := (tc.execEwmaNs * 3 + delta) / 4 }
      if tc.commPinned || (m.classifyMode != .adaptive && m.classifyMode != .hybrid) then
        setCtx s p tc
      -- Hysteresis: promote at the threshold, demote only below half of it.
      else if tc.domain = .little ∧ tc.execEwmaNs > m.bigSliceThreshNs then
        statAdd (setCtx s p { tc with domain := .big }) .reclassify 1
      else if tc.domain = .big ∧ tc.execEwmaNs < m.bigSliceThreshNs / 2 then
        statAdd (setCtx s p { tc with domain := .little }) .reclassify 1
      else setCtx s p tc

def enomem : Int := 12

/-- `ops.init_task`. `alloc` says whether `bpf_task_storage_get` could create the storage;
storage that exists is reused. -/
def blsInitTask [DecidableEq T] (m : Machine T) (p : T) (comm : Option Comm) (alloc : Bool)
    (s : Sched T) : Int × Sched T :=
  if !alloc then (-enomem, s)
  else
    let (domain, pinned) := initialDomain m.toConfig comm
    let tc := (s.taskCtx p).getD {}
    let tc := { tc with domain := domain, commPinned := pinned, execEwmaNs := 0, startedAt := 0 }
    (0, statAdd (setCtx s p tc) (if tc.domain = .little then .tasksLittle else .tasksBig) 1)

end FakeBigLittle
