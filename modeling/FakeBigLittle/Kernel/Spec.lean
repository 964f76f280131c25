import FakeBigLittle.Bpf.Spec
import FakeBigLittle.Runs

/-!
# sched_ext around the scheduler

The callbacks as calls in any order, and the kernel that makes them: it wakes, runs and
preempts tasks, and owns what the BPF program never sees.

The contract of the kernel: a wakeup calls `select_cpu` unless the task is pinned to one
CPU, and then `enqueue` exactly when `select_cpu` inserted nothing; a slice expiry calls
`stopping` and then `enqueue`; a CPU goes idle only after a `dispatch` that found nothing.
-/

namespace FakeBigLittle

open Runs

variable {T : Type} [DecidableEq T]

/-! ## Calls in any order -/

inductive Call (T : Type) where
  | initTask (p : T) (comm : Option Comm) (alloc : Bool)
  | selectCpu (p : T) (prevCpu : Int)
  | enqueue (p : T) (enqFlags : UInt64)
  | dispatch (cpu : Nat)
  | running (p : T) (now : UInt64)
  | stopping (p : T) (now : UInt64) (cpu : Nat)

/-- What `select_cpu` inserted goes to the local DSQ of the CPU that it returned. -/
def deliver (s : Sched T) (cpu : Int) : Sched T :=
  { s with
    localDsq := Function.update s.localDsq cpu.toNat (s.localDsq cpu.toNat ++ s.direct)
    direct := [] }

def call (m : Machine T) (s : Sched T) : Call T → Option (Sched T)
  | .initTask p comm alloc => some (blsInitTask m p comm alloc s).2
  | .selectCpu p prevCpu =>
    let (cpu, s) := blsSelectCpu m p prevCpu s
    some (deliver s cpu)
  | .enqueue p enqFlags => some (blsEnqueue m p enqFlags s)
  | .dispatch cpu => some (blsDispatch m cpu s)
  | .running p now => some (blsRunning p now s)
  | .stopping p now cpu => some (blsStopping m p now cpu s)

/-- The scheduler as it is when it attaches. Only the idle mask is the machine's. -/
def Sched.start (idle : Nat → Bool) : Sched T where
  taskCtx := fun _ => none
  stats := fun _ => 0
  idle := idle
  kicked := fun _ => false
  dsq := fun _ => []
  localDsq := fun _ => []
  direct := []

/-! ## The kernel -/

structure Sys (T : Type) where
  sched : Sched T
  comm : T → Comm
  running : Nat → Option T
  runnable : T → Bool

inductive Event (T : Type) where
  /-- a task that exists when the scheduler attaches -/
  | attach (p : T)
  | fork (parent child : T)
  /-- `execve` replaces `p->comm`; the scheduler registers no callback for it -/
  | exec (p : T) (comm : Comm)
  | wakeup (p : T) (prevCpu : Int) (enqFlags : UInt64)
  /-- a task that became runnable without a wakeup: it was runnable at attach, or the
  kernel changed its attributes -/
  | enqueue (p : T) (enqFlags : UInt64)
  /-- the kernel takes a task off the DSQ that it waits on -/
  | dequeue (p : T)
  | expire (cpu : Nat) (now enqFlags : UInt64)
  | block (cpu : Nat) (now : UInt64)
  | dispatch (cpu : Nat)
  /-- the CPU picks the first task of its local DSQ -/
  | run (cpu : Nat) (now : UInt64)

/-- `p->nr_cpus_allowed == 1` -/
def pinned (m : Machine T) (p : T) : Bool :=
  ((List.range m.nrCpus).filter (m.cpusPtr p)).length == 1

/-- `ops.init_task` for a task the scheduler does not know yet. -/
def adopt (m : Machine T) (s : Sys T) (p : T) : Sys T :=
  { s with sched := (blsInitTask m p (some (s.comm p)) true s.sched).2 }

/-- A task that the kernel hands to `ops.enqueue` is runnable from then on. -/
def wake (s : Sys T) (p : T) : Sys T :=
  { s with runnable := Function.update s.runnable p true }

def enter (m : Machine T) (s : Sys T) (p : T) (enqFlags : UInt64) : Sys T :=
  { wake s p with sched := blsEnqueue m p enqFlags s.sched }

/-- A task leaves its CPU through `ops.stopping`. -/
def leave (m : Machine T) (s : Sys T) (p : T) (cpu : Nat) (now : UInt64) : Sys T :=
  { s with
    sched := blsStopping m p now cpu s.sched
    running := Function.update s.running cpu none
    runnable := Function.update s.runnable p false }

/-- A CPU takes the first task of its local DSQ and is idle no longer. -/
def popLocal (s : Sched T) (cpu : Nat) (rest : List (Queued T)) : Sched T :=
  { s with
    localDsq := Function.update s.localDsq cpu rest
    idle := Function.update s.idle cpu false
    kicked := Function.update s.kicked cpu false }

/-- After a dispatch that left it nothing to run, a free CPU goes idle. -/
def settle (s : Sys T) (cpu : Nat) : Sys T :=
  let kicked := Function.update s.sched.kicked cpu false
  if s.running cpu = none ∧ s.sched.localDsq cpu = [] then
    { s with sched :=
      { s.sched with idle := Function.update s.sched.idle cpu true, kicked := kicked } }
  else { s with sched := { s.sched with kicked := kicked } }

def waitsOn (s : Sys T) (p : T) (d : Dom) : Bool := (s.sched.dsq d).any fun q => q.task = p

def unqueue (s : Sys T) (p : T) (d : Dom) : Sys T :=
  { s with
    sched := { s.sched with
      dsq := Function.update s.sched.dsq d ((s.sched.dsq d).eraseP fun q => q.task = p) }
    runnable := Function.update s.runnable p false }

/-- Whether `p` may enter the queues: the scheduler knows it and it is not runnable yet. -/
def canWake (s : Sys T) (p : T) : Bool := (s.sched.taskCtx p).isSome && !s.runnable p

def step (m : Machine T) (s : Sys T) : Event T → Option (Sys T)
  | .attach p => if (s.sched.taskCtx p).isSome then none else some (adopt m s p)
  | .fork parent child =>
    if (s.sched.taskCtx parent).isNone || (s.sched.taskCtx child).isSome then none
    else some (adopt m { s with comm := Function.update s.comm child (s.comm parent) } child)
  | .exec p comm =>
    if (s.sched.taskCtx p).isNone then none
    else some { s with comm := Function.update s.comm p comm }
  | .wakeup p prevCpu enqFlags =>
    if !canWake s p then none
    else if pinned m p then some (enter m s p enqFlags)
    else
      let (cpu, sched) := blsSelectCpu m p prevCpu s.sched
      if sched.direct.isEmpty then some (enter m { s with sched := sched } p enqFlags)
      else some { wake s p with sched := deliver sched cpu }
  | .enqueue p enqFlags =>
    if !canWake s p then none
    else some (enter m s p enqFlags)
  | .dequeue p =>
    if waitsOn s p .big then some (unqueue s p .big)
    else if waitsOn s p .little then some (unqueue s p .little)
    else none
  | .expire cpu now enqFlags =>
    match s.running cpu with
    | none => none
    | some p => some (enter m (leave m s p cpu now) p enqFlags)
  | .block cpu now =>
    match s.running cpu with
    | none => none
    | some p => some (leave m s p cpu now)
  | .dispatch cpu =>
    if cpu < m.nrCpus then
      some (settle { s with sched := blsDispatch m cpu s.sched } cpu)
    else none
  | .run cpu now =>
    match s.running cpu, s.sched.localDsq cpu with
    | none, q :: rest =>
      some { s with
        sched := blsRunning q.task now (popLocal s.sched cpu rest)
        running := Function.update s.running cpu (some q.task) }
    | _, _ => none

/-- The system when the scheduler attaches: no task is known and nothing is queued. -/
structure Init (m : Machine T) (s : Sys T) : Prop where
  sched : s.sched = Sched.start s.sched.idle
  idle_lt : ∀ cpu, s.sched.idle cpu = true → cpu < m.nrCpus
  running : ∀ cpu, s.running cpu = none
  runnable : ∀ p, s.runnable p = false

/-! ## Two cores -/

-- `make`
def makeComm : Comm := ⟨[109, 97, 107, 101], by decide, by decide⟩

-- `sh`
def shComm : Comm := ⟨[115, 104], by decide, by decide⟩

/-- The rule that the loader stores for `c:d`. -/
def ruleOf (c : Comm) (d : Dom) : CommRule := ⟨c.byte, c.bytes.length, d⟩

/-- A BIG core and a LITTLE one, the rule `make:big`, and task 0 pinned to the BIG core. -/
def pairMachine (mode : ClassifyMode) (strict : Bool) : Machine Nat where
  nrCpus := 2
  classifyMode := mode
  strictDomains := strict
  sliceBigNs := 20000000
  sliceLittleNs := 3000000
  bigSliceThreshNs := 1500000
  cpuDom := fun cpu => if cpu = 0 then .big else .little
  commRules := fun i => if i = 0 then ruleOf makeComm .big else ⟨fun _ => 0, 0, .big⟩
  nrCpus_le := by decide
  cpusPtr := fun p cpu => decide (cpu < 2) && (p != 0 || cpu == 0)
  cpusPtr_lt := fun _ _ h => of_decide_eq_true (Bool.and_eq_true_iff.mp h).1
  cpusPtr_ne := fun p => ⟨0, Bool.and_eq_true_iff.mpr ⟨rfl, Bool.or_true _⟩⟩

/-- Both cores idle and every task called `sh`. -/
def pairStart : Sys Nat where
  sched := Sched.start fun cpu => decide (cpu < 2)
  comm := fun _ => shComm
  running := fun _ => none
  runnable := fun _ => false

theorem pairStart_init (mode : ClassifyMode) (strict : Bool) :
    Init (pairMachine mode strict) pairStart :=
  ⟨rfl, fun _ h => of_decide_eq_true h, fun _ => rfl, fun _ => rfl⟩

theorem reachable_pair {mode : ClassifyMode} {strict : Bool} {es : List (Event Nat)}
    {s : Sys Nat} (h : run (step (pairMachine mode strict)) pairStart es = some s) :
    Reachable (step (pairMachine mode strict)) (Init (pairMachine mode strict)) s :=
  ⟨pairStart, es, pairStart_init mode strict, h⟩

end FakeBigLittle
