import FakeBigLittle.Bench.CommandLine

/-!
# A run of `e3_one`

The harness, bls, the build with its energy meter and the pinger, as one machine. Any of
them may take the next step, and the kernel may eject the scheduler at any time.
-/

namespace FakeBigLittle

open CString

namespace Bench

/-! ## What the tools print -/

/-- A JSON object, by the keys that the harness looks at. -/
structure Obj where
  pkgJ : Bool := false
  wakeUsP50 : Bool := false
  threads : Bool := false
  event : Option Text := none
  exitCode : Option Int := none
  deriving DecidableEq

-- The slots of `classify_json`.
structure JsonSlots where
  energy : Option Obj := none
  pinger : Option Obj := none
  spin : Option Obj := none
  bls : Option Obj := none
  partition : Option Obj := none

def route (slots : JsonSlots) (o : Obj) : JsonSlots :=
  if o.pkgJ then { slots with energy := some o }
  else if o.wakeUsP50 then { slots with pinger := some o }
  else if o.threads then { slots with spin := some o }
  else if o.event = some "stats".toList then { slots with bls := some o }
  else if o.event = some "partition".toList then { slots with partition := some o }
  else slots

def classifyJson (objs : List Obj) : JsonSlots := objs.foldl route {}

def objOf : Record → Obj
  | .partition _ => { event := some "partition".toList }
  | .attached => { event := some "attached".toList }
  | .stats => { event := some "stats".toList }

-- The `ok` of `e3_one`.
def okOf (returncode : Int) (slots : JsonSlots) : Bool :=
  returncode == 0 && slots.energy.isSome && slots.energy.bind (·.exitCode) == some 0 &&
    slots.pinger.isSome

/-! ## The parties -/

/-- `/sys/kernel/sched_ext/state` -/
inductive ScxState where
  | disabled
  | enabling
  | enabled
  | disabling
  deriving DecidableEq

/-- The process of bls. It is dead when it did not end by itself. -/
structure Proc where
  main : Loader
  dead : Bool

-- `proc.poll() is not None`
def Proc.ended (p : Proc) : Bool := p.dead || p.main.pc.isEnd

/-- Where `e3_one` is. -/
inductive E3Pc where
  | prepare
  | waitPoll
  | waitState
  | settle
  | pinger
  | startBuild
  | build
  | stopPinger
  | stopBls
  | blsOut
  | record
  | recorded (ok : Bool)
  | raised
  deriving DecidableEq

structure E3 where
  pc : E3Pc
  /-- `bls_proc` -/
  bls : Option Proc
  scx : ScxState
  /-- `uei.kind` is not zero -/
  ejected : Bool
  returncode : Int
  /-- the objects on the stdout of the tools so far -/
  objs : List Obj
  /-- the scheduler was enabled when the build began and after every event since, up to
  the end of the build -/
  covered : Bool

/-- One call of `e3_one` with its arm, on a machine where bls counts `nrCpus` CPUs. -/
structure E3Setup where
  bench : Bench
  factors : Factors
  nrCpus : Nat
  loader : Loader
  start : loader.Start

/-- What the harness gets back from the call that it makes. -/
inductive BenchEvent where
  | go
  /-- the deadline of `_wait_attached`, or the timeout of `communicate` -/
  | timeUp
  /-- `current_scx` is `None` -/
  | noState
  | built (returncode : Int) (out : List Obj)
  | pinged (out : List Obj)
  | raise

inductive E3Event where
  | bench (e : BenchEvent)
  | bls (e : LoaderEvent)
  /-- bls crashes, or somebody sends it SIGKILL -/
  | blsDies
  /-- the kernel begins to enable the scheduler that bls attaches -/
  | enabling
  | ejecting
  | ejected

/-! ## Steps -/

/-- The kernel enables a scheduler for as long as its link is held. -/
def scxAfter (l l' : Loader) (scx : ScxState) : ScxState :=
  if l'.pc.isEnd then .disabled
  else if l'.attached then (if l.attached then scx else .enabled)
  else if l'.pc = .attach then scx
  else .disabled

def E3.blsTo (s : E3) (p : Proc) (main : Loader) : E3 :=
  { s with bls := some { p with main := main }, scx := scxAfter p.main main s.scx }

-- `_kill(proc)`
def E3.kill (s : E3) (p : Proc) : E3 :=
  if p.ended then s else { s with bls := some { p with dead := true }, scx := .disabled }

/-- `_wait_attached` and what `e3_one` does with its answer. -/
def waitStep (s : E3) (p : Proc) : BenchEvent → Option E3
  | .timeUp => if s.pc = .waitPoll then some { s.kill p with pc := .recorded false } else none
  | .noState => if s.pc = .waitState then some { s with pc := .waitPoll } else none
  | .go =>
    if s.pc = .waitPoll then
      if p.ended then some { s.kill p with pc := .recorded false }
      else some { s with pc := .waitState }
    else if s.scx = .disabled then some { s with pc := .waitPoll }
    else some { s with pc := .settle }
  | _ => none

/-- The end of bls: SIGTERM, and its output or a timeout. -/
def blsEndStep (s : E3) (p : Proc) : BenchEvent → Option E3
  | .go =>
    if s.pc = .stopBls then
      some { (if p.ended then s else s.blsTo p (signalStep p.main .term)) with pc := .blsOut }
    else if p.ended then
      some { s with pc := .record, objs := s.objs ++ p.main.out.map objOf }
    else none
  | .timeUp => if s.pc = .blsOut then some { s.kill p with pc := .record } else none
  | _ => none

def benchStep (m : E3Setup) (s : E3) (e : BenchEvent) : Option E3 :=
  match s.pc, s.bls, e with
  | .recorded _, _, _ => none
  | .raised, _, _ => none
  | _, _, .raise => some { s with pc := .raised }
  | .prepare, _, .go =>
    if m.factors.sched = .scx then some { s with pc := .waitPoll, bls := some ⟨m.loader, false⟩ }
    else some { s with pc := .pinger }
  | .waitPoll, some p, e => waitStep s p e
  | .waitState, some p, e => waitStep s p e
  | .settle, _, .go => some { s with pc := .pinger }
  | .pinger, _, .go => some { s with pc := .startBuild }
  | .startBuild, _, .go => some { s with pc := .build, covered := s.scx == .enabled }
  | .build, _, .built returncode out =>
    some { s with pc := .stopPinger, returncode := returncode, objs := out }
  | .stopPinger, _, .pinged out => some { s with pc := .stopBls, objs := s.objs ++ out }
  | .stopPinger, _, .timeUp => some { s with pc := .raised }
  | .stopBls, none, .go => some { s with pc := .record }
  | .stopBls, some p, e => blsEndStep s p e
  | .blsOut, some p, e => blsEndStep s p e
  | .record, _, .go =>
    some { s with pc := .recorded (okOf s.returncode (classifyJson s.objs)) }
  | _, _, _ => none

/-- bls reads `uei.kind` in its run loop. -/
def readsEjected (s : E3) : LoaderEvent → Bool
  | .poll _ ejected _ => ejected == s.ejected
  | _ => true

def e3Move (m : E3Setup) (s : E3) : E3Event → Option E3
  | .bench e => benchStep m s e
  | .bls e =>
    match s.bls with
    | none => none
    | some p =>
      if p.ended || !readsEjected s e then none
      else (mainStep (m.bench.blsOptions m.factors) m.nrCpus p.main e).map (s.blsTo p)
  | .blsDies =>
    match s.bls with
    | none => none
    | some p => if p.ended then none else some (s.kill p)
  | .enabling =>
    match s.bls with
    | none => none
    | some p =>
      if p.ended = false ∧ p.main.pc = .attach ∧ s.scx = .disabled then
        some { s with scx := .enabling }
      else none
  | .ejecting => if s.scx = .enabled then some { s with scx := .disabling } else none
  | .ejected =>
    if s.scx = .disabling then some { s with scx := .disabled, ejected := true } else none

/-- While the build runs, it is seen whether the scheduler is enabled. -/
def watch (s t : E3) : E3 :=
  if s.pc = .build then { t with covered := s.covered && t.scx == .enabled } else t

def e3Step (m : E3Setup) (s : E3) (e : E3Event) : Option E3 := (e3Move m s e).map (watch s)

/-- `e3_one` is called, and no sched_ext scheduler is loaded. -/
structure E3Init (s : E3) : Prop where
  pc : s.pc = .prepare
  bls : s.bls = none
  scx : s.scx = .disabled

end Bench

end FakeBigLittle
