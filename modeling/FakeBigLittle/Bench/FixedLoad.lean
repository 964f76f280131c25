import FakeBigLittle.Bench.Spec
import FakeBigLittle.Energy.Summary
import FakeBigLittle.Spin.Main

/-!
# The experiments with a fixed load

`e1_rail`, `e1b_poison` and `e2_coupling`: the sampler runs around `spin`, and both print to one
pipe.
-/

namespace FakeBigLittle

open CString
open Json (Value)

namespace Bench

/-! ## `classify_json` -/

-- `k in o`
def hasKey (k : Text) : Value → Bool
  | .obj ms => ms.any fun m => m.1 == k
  | _ => false

-- `o.get(k)`; of members with one name, the last is kept
def get (k : Text) : Value → Option Value
  | .obj ms => (ms.reverse.find? fun m => m.1 == k).map (·.2)
  | _ => none

def isEvent (name : Text) (o : Value) : Bool :=
  match get "event".toList o with
  | some (.str t) => t == name
  | _ => false

structure ToolSlots where
  energy : Option Value := none
  pinger : Option Value := none
  spin : Option Value := none
  bls : Option Value := none
  partition : Option Value := none

def slot (slots : ToolSlots) (o : Value) : ToolSlots :=
  if hasKey "pkg_j".toList o then { slots with energy := some o }
  else if hasKey "wake_us_p50".toList o then { slots with pinger := some o }
  else if hasKey "threads".toList o then { slots with spin := some o }
  else if isEvent "stats".toList o then { slots with bls := some o }
  else if isEvent "partition".toList o then { slots with partition := some o }
  else slots

def classify (objs : List Value) : ToolSlots := objs.foldl slot {}

/-! ## The arms -/

/-- An arm of an experiment: the CPUs that it loads, and the list that it gives to `spin`;
`none` where it runs without. -/
structure Arm where
  experiment : Text
  name : Text
  load : Option (List Nat × Text)
  deriving DecidableEq

-- `none` is `IndexError`
def e1Rail (b : Bench) : Option (List Arm) := do
  let probeBig ← b.big.head?
  let probeLittle ← b.little.head?
  let load := ([probeBig, probeLittle], str probeBig ++ ',' :: str probeLittle)
  some (["both-performance", "both-power", "both-balance", "partitioned"].map fun name =>
    ⟨"e1-rail".toList, name.toList, some load⟩)

def e1bPoison (b : Bench) : Option (List Arm) := do
  let probe ← b.little.head?
  some (["others-power", "others-balance", "others-performance", "others-balance-power"].map
    fun name => ⟨"e1b-poison".toList, name.toList, some ([probe], str probe)⟩)

def e2Conditions (b : Bench) : List (Text × Option (List Nat)) :=
  ("idle".toList, none) ::
    ((sorted [1, 2, b.little.length].dedup).filter (· ≤ b.little.length)).flatMap (fun k =>
      [("little".toList ++ str k, some (b.little.take k)),
        ("big1+little".toList ++ str k, some (sorted (b.big.take 1 ++ b.little.take k)))]) ++
    [("big1".toList, some (b.big.take 1))]

def e2Coupling (b : Bench) : List Arm :=
  ["partitioned", "flat"].flatMap fun eppName => (e2Conditions b).map fun cond =>
    ⟨"e2-coupling".toList, eppName.toList ++ '.' :: cond.1,
      cond.2.map fun cpus => (cpus, cpulist cpus)⟩

/-- The arms with a fixed load that the harness comes to. -/
def fixedArms (b : Bench) : List Arm :=
  (e1Rail b).getD [] ++ (e1bPoison b).getD [] ++ e2Coupling b

/-! ## A call of the sampler -/

/-- What becomes of `spin`, the child of the sampler. -/
inductive Child where
  /-- `execvp` fails -/
  | noExec
  | ended (e : Spin.Env)
  /-- a signal ends it when so much of its output is written -/
  | killed (e : Spin.Env) (written : Nat)

def spinOptions (name cpus : Text) : Spin.Options := { cpulist := some cpus, label := name }

-- `none` where it did not exit
def Child.status (o : Spin.Options) : Child → Option Nat
  | .noExec => some 127
  | .ended e => some (Spin.main o e).1
  | .killed _ _ => none

def Child.out (o : Spin.Options) : Child → Text
  | .noExec => []
  | .ended e => (Spin.main o e).2
  | .killed e written => (Spin.main o e).2.take written

/-- What becomes of the sampler. -/
inductive Meter where
  /-- it ends before its record is out -/
  | died (returncode : Int) (failed : returncode ≠ 0) (out : Text)
  | finished (r : Energy.Finished)

def samplerOptions (name : Text) : Energy.Options where
  intervalMs := 200
  output := true
  label := name
  cmd := true

/-- A call of `run` with the command line of an arm. -/
structure Call (name cpus : Text) where
  child : Child
  meter : Meter
  wraps : ∀ r, meter = .finished r → r.o = samplerOptions name ∧
    r.ending.child = some (child.status (spinOptions name cpus))

structure CompletedProcess where
  returncode : Int
  stdout : Text

-- `main` returns 0; SIGSEGV is -11
def Call.process {name cpus : Text} (call : Call name cpus) : CompletedProcess :=
  let out := call.child.out (spinOptions name cpus)
  match call.meter with
  | .died returncode _ meterOut => ⟨returncode, out ++ meterOut⟩
  | .finished r =>
    if r.final.pc = .done then ⟨0, out ++ Energy.summary r.nan r.o r.m r.final r.ending⟩
    else ⟨-11, out⟩

/-! ## The record -/

structure Recorded where
  experiment : Text
  arm : Text
  ok : Bool
  slots : ToolSlots

-- `p.returncode == 0 and slots["energy"] is not None`
def okFixed (p : CompletedProcess) (slots : ToolSlots) : Bool :=
  p.returncode == 0 && slots.energy.isSome

def recordFixed (arm : Arm) (p : CompletedProcess) : Recorded :=
  let slots := classify (collectJson p.stdout)
  ⟨arm.experiment, arm.name, okFixed p slots, slots⟩

end Bench

end FakeBigLittle
