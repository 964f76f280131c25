import FakeBigLittle.CString
import FakeBigLittle.Common
import Mathlib.Data.List.DropRight
import Mathlib.Logic.Function.Basic

/-!
# The loader

`src/bls.c`: the partition, the EPP of each CPU, and `main` as a machine that takes one
call into the system at a time. Whatever the system may answer is an event, and so is a
signal.
-/

namespace FakeBigLittle

open CString

/-! ## Options -/

/-- The options of `main`. `interval` and `duration` say whether the number is positive. -/
structure Options where
  bigList : Option Text := none
  littleList : Option Text := none
  eppBig : Text := "performance".toList
  eppLittle : Text := "power".toList
  bigComm : Option Text := some "make,cc1,cc1plus,ld,as,rustc,clang,gcc,collect2,ccache".toList
  littleComm : Option Text := none
  flat : Bool := false
  noEpp : Bool := false
  strict : Bool := false
  dryRun : Bool := false
  persist : Bool := false
  mode : ClassifyMode := .hybrid
  interval : Bool := false
  duration : Bool := false
  sliceBig : UInt32 := 20
  sliceLittle : UInt32 := 3
  threshMs : UInt32 := 2

/-- The calls of `die`. -/
inductive Fatal where
  | unknownMode (name : Text)
  | badCpuCount (count : Nat)
  | badCpuList (near : Text)
  | badCpuRange (near : Text)
  | outOfRange (a b : Int)
  | unexpectedCharacter (c : Char)
  | tooManyRules
  deriving DecidableEq

/-! ## The partition -/

-- `struct cpu_state`
structure CpuState where
  eppSaved : Text := []
  eppValid : Bool := false
  domain : Dom := .big
  coreId : Int := 0
  eppMsrBefore : UInt8 := 0
  eppMsrAfter : UInt8 := 0
  msrValid : Bool := false

def setDomain (cpus : Nat → CpuState) (cpu : Nat) (domain : Dom) : Nat → CpuState :=
  Function.update cpus cpu { cpus cpu with domain := domain }

/-- `a` or `a-b` at the head of a list, and what follows it. -/
def cpuRange (p : Text) : Except Fatal ((Int × Int) × Text) :=
  match strtol p with
  | none => .error (.badCpuList p)
  | some (a, '-' :: q) =>
    match strtol q with
    | none => .error (.badCpuRange q)
    | some (b, rest) => .ok ((a, b), rest)
  | some (a, rest) => .ok ((a, a), rest)

/-- The loop of `parse_cpulist`. Every round consumes a character, so a fuel of the length
of the text is enough. -/
def parseCpulistLoop (domain : Dom) : Nat → Text → (Nat → CpuState) →
    Except Fatal (Nat → CpuState)
  | _, [], cpus => .ok cpus
  | 0, _ :: _, cpus => .ok cpus
  | fuel + 1, p, cpus =>
    match cpuRange p with
    | .error e => .error e
    | .ok ((a, b), rest) =>
      if a < 0 ∨ b ≥ blsMaxCpus ∨ b < a then .error (.outOfRange a b)
      else
        let cpus := (List.range' a.toNat (b - a + 1).toNat).foldl
          (fun cpus c => setDomain cpus c domain) cpus
        match rest with
        | [] => .ok cpus
        | ',' :: rest => parseCpulistLoop domain fuel rest cpus
        | c :: _ => .error (.unexpectedCharacter c)

def parseCpulist (s : Text) (domain : Dom) (cpus : Nat → CpuState) :
    Except Fatal (Nat → CpuState) :=
  parseCpulistLoop domain s.length s cpus

-- The loops of `main` that set the domain of every CPU.
def allDomains (n : Nat) (cpus : Nat → CpuState) (domain : Dom) : Nat → CpuState :=
  fun cpu => if cpu < n then { cpus cpu with domain := domain } else cpus cpu

/-- Default: first half big, second half little. -/
def defaultDomains (n : Nat) (coreIdOf : Nat → Int) (cpus : Nat → CpuState) :
    Nat → CpuState :=
  fun cpu =>
    if cpu < n then
      { cpus cpu with
        domain := if cpu < n / 2 then .big else .little
        coreId := coreIdOf cpu }
    else cpus cpu

-- `if (list) parse_cpulist(list, domain)`
def parseGiven (list : Option Text) (domain : Dom) (cpus : Nat → CpuState) :
    Except Fatal (Nat → CpuState) :=
  match list with
  | none => .ok cpus
  | some list => parseCpulist list domain cpus

/-- The partition that `main` resolves: the mode, and the CPU table. `check_smt_split` only
prints. -/
def resolvePartition (o : Options) (n : Nat) (coreIdOf : Nat → Int) (cpus : Nat → CpuState) :
    Except Fatal (ClassifyMode × (Nat → CpuState)) :=
  if n = 0 ∨ n > blsMaxCpus then .error (.badCpuCount n)
  else
    let cpus := defaultDomains n coreIdOf cpus
    if o.flat then .ok (.flat, allDomains n cpus .big)
    else if o.bigList.isSome || o.littleList.isSome then
      let cpus := allDomains n cpus (if o.littleList.isSome then .big else .little)
      match parseGiven o.bigList .big cpus with
      | .error e => .error e
      | .ok cpus =>
        match parseGiven o.littleList .little cpus with
        | .error e => .error e
        | .ok cpus => .ok (o.mode, cpus)
    else .ok (o.mode, cpus)

/-! ## Comm rules -/

/-- The loop of `add_comm_rules`. A token that is too long is cut to the rule's buffer. -/
def addRules (domain : Dom) : List Text → (Nat → CommRule) → Nat →
    Except Fatal ((Nat → CommRule) × Nat)
  | [], rules, slot => .ok (rules, slot)
  | token :: tokens, rules, slot =>
    if slot ≥ blsMaxCommRules then .error .tooManyRules
    else
      let len := min token.length blsCommLen
      let comm := fun j =>
        if j < len then UInt8.ofNat (token.getD j '\x00').toNat else (rules slot).comm j
      addRules domain tokens (Function.update rules slot ⟨comm, len, domain⟩) (slot + 1)

def addCommRules (list : Text) (domain : Dom) (rules : Nat → CommRule) (slot : Nat) :
    Except Fatal ((Nat → CommRule) × Nat) :=
  addRules domain (strtok ',' list) rules slot

/-! ## EPP -/

/-- What an `energy_performance_preference` file holds: a word, or a number. -/
@[ext]
structure Epp where
  text : Text
  short : text.length < 32
  trimmed : ∀ c, text.getLast? = some c → c ≠ '\n' ∧ c ≠ ' '
  deriving DecidableEq

/-- `read_file` into a buffer of `len` bytes. -/
def readFile (content : Text) (len : Nat) : Text :=
  (content.take (len - 1)).rdropWhile fun c => c == '\n' || c == ' '

inductive Sig where
  | int
  | term
  deriving DecidableEq

/-- A CPU in the record that `report_partition` prints. -/
structure Row where
  cpu : Nat
  core : Int
  domain : Dom
  epp : Text
  eppMsrBefore : Option UInt8
  eppMsrAfter : Option UInt8

/-- The JSON records on stdout. -/
inductive Record where
  | partition (rows : List Row)
  | attached
  | stats

/-- Where `main` is. -/
inductive Pc where
  | resolve
  | saveEpp (cpu : Nat)
  | applyEpp (cpu : Nat)
  | report
  | openSkel
  | loadSkel
  | bigRules
  | littleRules
  | signalInt
  | signalTerm
  | attach
  | loop
  | stats
  | detach
  /-- `restore_epp` on the way to `exit(code)` -/
  | restoreEpp (cpu : Nat) (code : Int)
  | exited (code : Int)
  | killed (sig : Sig)
  deriving DecidableEq

def Pc.isEnd : Pc → Bool
  | .exited _ | .killed _ => true
  | _ => false

structure Loader where
  pc : Pc
  cpus : Nat → CpuState
  /-- the EPP files of the machine -/
  epp : Nat → Epp
  /-- what is in the skeleton's `.rodata` and `.bss` -/
  skel : Config
  slot : Nat
  mode : ClassifyMode
  /-- the signals whose handler is installed -/
  handles : Sig → Bool
  exiting : Bool
  attached : Bool
  out : List Record
  /-- every write to an EPP file: the CPU and the text -/
  writes : List (Nat × Text)

/-- What the system answers to the call that `main` makes. -/
inductive LoaderEvent where
  | ok
  | fail
  /-- the `core_id` of each CPU is read; -1 where it cannot be -/
  | cores (coreIdOf : Nat → Int)
  /-- the EPP file and the MSR of a CPU are read -/
  | read (epp : Bool) (msr : Option UInt8)
  /-- an EPP file is written and then shows a value, or the write fails and it keeps its
  own; the MSR is read -/
  | write (shown : Option Epp) (msr : Option UInt8)
  /-- one round of the run loop: whether the duration is over, the scheduler has exited,
  and `read_stats` gets its memory -/
  | poll (timeUp ejected memory : Bool)
  | signal (sig : Sig)

def CpuState.save (c : CpuState) (content : Option Text) (msr : Option UInt8) : CpuState :=
  { c with
    eppSaved := (content.map fun t => readFile t 32).getD c.eppSaved
    eppValid := c.eppValid || content.isSome
    msrValid := msr.isSome
    eppMsrBefore := msr.getD c.eppMsrBefore }

def CpuState.reread (c : CpuState) (msr : Option UInt8) : CpuState :=
  { c with
    msrValid := c.msrValid && msr.isSome
    eppMsrAfter := msr.getD c.eppMsrAfter }

/-- What `apply_epp` wants for a CPU. With `--flat` both arguments are `epp_big`. -/
def Options.want (o : Options) (c : CpuState) : Text :=
  if c.domain = .little ∧ o.flat = false then o.eppLittle else o.eppBig

def row (o : Options) (cpus : Nat → CpuState) (cpu : Nat) : Row where
  cpu := cpu
  core := (cpus cpu).coreId
  domain := (cpus cpu).domain
  epp := o.want (cpus cpu)
  eppMsrBefore := if (cpus cpu).msrValid then some (cpus cpu).eppMsrBefore else none
  eppMsrAfter := if (cpus cpu).msrValid then some (cpus cpu).eppMsrAfter else none

-- A write to the EPP file of `cpu` that leaves it showing `shown`.
def Loader.writeEpp (s : Loader) (cpu : Nat) (text : Text) (shown : Option Epp) : Loader :=
  { s with
    epp := Function.update s.epp cpu (shown.getD (s.epp cpu))
    writes := s.writes ++ [(cpu, text)] }

def nsPerMs : UInt64 := 1000000

/-- The `.rodata` that `main` writes between open and load. -/
def rodata (o : Options) (n : Nat) (mode : ClassifyMode) (skel : Config) : Config :=
  { skel with
    nrCpus := n
    classifyMode := mode
    strictDomains := o.strict
    sliceBigNs := o.sliceBig.toUInt64 * nsPerMs
    sliceLittleNs := o.sliceLittle.toUInt64 * nsPerMs
    bigSliceThreshNs := o.threshMs.toUInt64 * nsPerMs }

-- Where `die` and a signal without a handler leave `main`.
def Loader.die (s : Loader) : Loader := { s with pc := .exited 1 }

def resolveStep (o : Options) (n : Nat) (s : Loader) : LoaderEvent → Option Loader
  | .cores coreIdOf =>
    match resolvePartition o n coreIdOf s.cpus with
    | .error _ => some s.die
    | .ok (mode, cpus) => some { s with pc := .saveEpp 0, mode := mode, cpus := cpus }
  | _ => none

-- `save_epp` at `cpu`
def saveStep (o : Options) (n : Nat) (s : Loader) (cpu : Nat) : LoaderEvent → Option Loader
  | .read epp msr =>
    if cpu < n then
      let content := if epp then some ((s.epp cpu).text ++ ['\n']) else none
      some { s with
        pc := .saveEpp (cpu + 1)
        cpus := Function.update s.cpus cpu ((s.cpus cpu).save content msr) }
    else none
  | .ok => if cpu < n then none else some { s with pc := if o.noEpp then .report else .applyEpp 0 }
  | _ => none

-- `apply_epp` at `cpu`
def applyStep (o : Options) (n : Nat) (s : Loader) (cpu : Nat) : LoaderEvent → Option Loader
  | .write shown msr =>
    if cpu < n then
      let s := s.writeEpp cpu (o.want (s.cpus cpu)) shown
      if shown.isNone then some s.die
      else some { s with
        pc := .applyEpp (cpu + 1)
        cpus := Function.update s.cpus cpu ((s.cpus cpu).reread msr) }
    else none
  | .ok => if cpu < n then none else some { s with pc := .report }
  | _ => none

-- `restore_epp` at `cpu`; the result of the write is ignored
def restoreStep (n : Nat) (s : Loader) (cpu : Nat) (code : Int) : LoaderEvent → Option Loader
  | .write shown _ =>
    if cpu < n ∧ (s.cpus cpu).eppValid = true then
      some { s.writeEpp cpu (s.cpus cpu).eppSaved shown with pc := .restoreEpp (cpu + 1) code }
    else none
  | .ok =>
    if cpu < n then
      if (s.cpus cpu).eppValid then none else some { s with pc := .restoreEpp (cpu + 1) code }
    else some { s with pc := .exited code }
  | _ => none

/-- `add_comm_rules` for a list that was given, at a `main` that goes on to `next`. -/
def rulesStep (s : Loader) (list : Option Text) (domain : Dom) (next : Pc) :
    LoaderEvent → Option Loader
  | .ok =>
    match list with
    | none => some { s with pc := next }
    | some list =>
      match addCommRules list domain s.skel.commRules s.slot with
      | .error _ => some s.die
      | .ok (rules, slot) =>
        some { s with pc := next, skel := { s.skel with commRules := rules }, slot := slot }
  -- `strdup` fails
  | .fail => if list.isSome then some s.die else none
  | _ => none

/-- The run loop, one round. -/
def pollStep (o : Options) (s : Loader) : LoaderEvent → Option Loader
  | .poll timeUp ejected memory =>
    if s.exiting then some { s with pc := .stats }
    else if o.duration && timeUp then some { s with pc := .stats }
    else if ejected then some { s with pc := .stats }
    else if o.interval then
      if memory then some { s with out := s.out ++ [.stats] } else some s.die
    else some s
  | _ => none

/-- `main` between `apply_epp` and `restore_epp`. -/
def bpfStep (o : Options) (n : Nat) (s : Loader) (e : LoaderEvent) : Option Loader :=
  match s.pc, e with
  | .report, .ok =>
    let s := { s with out := s.out ++ [Record.partition ((List.range n).map (row o s.cpus))] }
    if o.dryRun then
      some { s with pc := if o.persist then .exited 0 else .restoreEpp 0 0 }
    else some { s with pc := .openSkel }
  | .openSkel, .ok => some { s with pc := .loadSkel, skel := rodata o n s.mode s.skel }
  | .openSkel, .fail => some { s with pc := .restoreEpp 0 1 }
  | .loadSkel, .ok =>
    some { s with
      pc := .bigRules
      skel := { s.skel with
        cpuDom := fun cpu => if cpu < n then (s.cpus cpu).domain else s.skel.cpuDom cpu } }
  | .loadSkel, .fail => some { s with pc := .restoreEpp 0 1 }
  | .bigRules, e => rulesStep s o.bigComm .big .littleRules e
  | .littleRules, e => rulesStep s o.littleComm .little .signalInt e
  | .signalInt, .ok =>
    some { s with pc := .signalTerm, handles := Function.update s.handles .int true }
  | .signalTerm, .ok =>
    some { s with pc := .attach, handles := Function.update s.handles .term true }
  | .attach, .ok => some { s with pc := .loop, attached := true, out := s.out ++ [.attached] }
  | .attach, .fail => some { s with pc := .restoreEpp 0 1 }
  | .loop, e => pollStep o s e
  | .stats, .ok => some { s with pc := .detach, out := s.out ++ [.stats] }
  -- `calloc` in `read_stats` fails
  | .stats, .fail => some s.die
  | .detach, .ok =>
    some { s with attached := false, pc := if o.persist then .exited 0 else .restoreEpp 0 0 }
  | _, _ => none

def signalStep (s : Loader) (sig : Sig) : Loader :=
  if s.handles sig then { s with exiting := true } else { s with pc := .killed sig }

/-- One call of `main`, or a signal, on a machine with `n` CPUs. -/
def mainStep (o : Options) (n : Nat) (s : Loader) (e : LoaderEvent) : Option Loader :=
  match s.pc, e with
  | .exited _, _ => none
  | .killed _, _ => none
  | _, .signal sig => some (signalStep s sig)
  | .resolve, e => resolveStep o n s e
  | .saveEpp cpu, e => saveStep o n s cpu e
  | .applyEpp cpu, e => applyStep o n s cpu e
  | .restoreEpp cpu code, e => restoreStep n s cpu code e
  | _, e => bpfStep o n s e

/-- `main` behind the option loop: nothing is read, written or handled yet, and static
storage is zero. -/
structure Loader.Start (s : Loader) : Prop where
  pc : s.pc = .resolve
  cpus : s.cpus = fun _ => {}
  cpuDom : s.skel.cpuDom = fun _ => .big
  rules : ∀ i, (s.skel.commRules i).len = 0
  slot : s.slot = 0
  handles : ∀ sig, s.handles sig = false
  exiting : s.exiting = false
  attached : s.attached = false

/-! ## A machine as it comes -/

def balanced : Epp where
  text := "balance_performance".toList
  short := by decide
  trimmed := by simp

def loaderStart : Loader where
  pc := .resolve
  cpus := fun _ => {}
  epp := fun _ => balanced
  skel := {
    nrCpus := 1
    classifyMode := .flat
    strictDomains := false
    sliceBigNs := 20000000
    sliceLittleNs := 3000000
    bigSliceThreshNs := 2000000
    cpuDom := fun _ => .big
    commRules := fun _ => ⟨fun _ => 0, 0, .big⟩ }
  slot := 0
  mode := .hybrid
  handles := fun _ => false
  exiting := false
  attached := false
  out := []
  writes := []

theorem loaderStart_start : loaderStart.Start :=
  ⟨rfl, rfl, rfl, fun _ => rfl, rfl, fun _ => rfl, rfl, rfl⟩

end FakeBigLittle
