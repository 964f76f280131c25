import FakeBigLittle.Analyze.Resample
import FakeBigLittle.CString
import FakeBigLittle.Dict
import FakeBigLittle.Printf
import FakeBigLittle.Runs
import Mathlib.Control.Traversable.Basic

/-!
# The workload

`scripts/workload.py`: the files that `generate` writes, and the stamp by which `main` knows that
they are there. A run of the script may end behind any operation on the files.
-/

namespace FakeBigLittle

open CString (Text)

namespace Workload

-- The arguments that the tree depends on.
structure Args where
  files : Int
  funcs : Int
  seed : Int
  deriving DecidableEq

/-! ## The files -/

section Files

variable (rng : Analyze.Random ℚ)

def randint (a b : Nat) : StateM rng.State Nat := do
  let d ← rng.randbelow (b - a + 1)
  return a + d

def choice (xs : List String) : StateM rng.State Text := do
  let i ← rng.randbelow xs.length
  return (xs.getD i "").toList

-- `range(1, nvars)`, one line
def genLocal (v : Nat) : StateM rng.State Text := do
  let p ← randint rng 0 (v - 1)
  let q ← randint rng 0 (v - 1)
  let op ← choice rng ["+", "-", "*"]
  let fn ← choice rng ["sin", "cos", "sqrt", "fabs", "exp", "log1p"]
  let x ← rng.random
  return "\tdouble a".toList ++ Printf.nat v ++ " = ".toList ++ fn ++ "(a".toList ++
    Printf.nat p ++ ' ' :: op ++ " a".toList ++ Printf.nat q ++ " + ".toList ++
    Decimal.fixed 9 x ++ ");".toList

def genCase (nvars c : Nat) : StateM rng.State Text := do
  let r ← randint rng 0 (nvars - 1)
  return "\tcase ".toList ++ Printf.nat c ++ ": return a".toList ++ Printf.nat r ++
    " * ".toList ++ Printf.nat (c + 1) ++ ".5;".toList

def genFunction (idx : Nat) : StateM rng.State Text := do
  let nvars ← randint rng 24 40
  let locals ← (List.range' 1 (nvars - 1)).mapM (genLocal rng)
  let cases ← (List.range 8).mapM (genCase rng nvars)
  return ['\n'].intercalate
    (["double f".toList ++ Printf.nat idx ++ "(double x, double y)".toList, "\x7b".toList,
        "\tdouble a0 = x + y;".toList] ++
      locals ++
      ["\tswitch ((int)a".toList ++ Printf.nat (nvars - 1) ++ " & 7) \x7b".toList] ++
      cases ++
      ["\t\x7d".toList, "\treturn a".toList ++ Printf.nat (nvars - 1) ++ ";".toList,
        "\x7d".toList])

-- `HEADER`
def header : Text :=
  ("/* generated by scripts/workload.py - do not edit */\n" ++
    "#include <stdint.h>\n" ++
    "#include <math.h>\n").toList

def modName (i : Nat) (ext : String) : Text :=
  "mod".toList ++ Decimal.padded 3 i ++ '.' :: ext.toList

def sourceFile (a : Args) (i : Nat) : StateM rng.State (Text × Text) := do
  let functions ← (List.range a.funcs.toNat).mapM fun j =>
    genFunction rng (i * a.funcs.toNat + j)
  return (modName i "c", "\n\n".toList.intercalate (header :: functions) ++ ['\n'])

def sources (a : Args) : List (Text × Text) :=
  ((List.range a.files.toNat).mapM (sourceFile rng a)).run' (rng.seed a.seed)

def makefile (a : Args) : Text × Text :=
  ("Makefile".toList,
    "# generated by scripts/workload.py - do not edit\n".toList ++
    "CC ?= cc\n".toList ++
    "CFLAGS ?= -O2 -fno-lto -w\n".toList ++
    "OBJS := ".toList ++
      [' '].intercalate ((List.range a.files.toNat).map (modName · "o")) ++ "\n".toList ++
    "all: $(OBJS)\n".toList ++
    "%.o: %.c\n".toList ++
    "\t$(CC) $(CFLAGS) -c $< -o $@\n".toList ++
    "clean:\n".toList ++
    "\trm -f $(OBJS)\n".toList ++
    ".PHONY: all clean\n".toList)

/-- What `generate` writes. -/
def produced (a : Args) : List (Text × Text) := sources rng a ++ [makefile a]

end Files

/-! ## The stamp -/

def stampName : Text := ".stamp".toList

def want (a : Args) : Text :=
  Printf.int a.files ++ ':' :: (Printf.int a.funcs ++ ':' :: (Printf.int a.seed ++ ['\n']))

/-- The files in the order of writing; the stamp is the last. -/
def outputs (rng : Analyze.Random ℚ) (a : Args) : List (Text × Text) :=
  produced rng a ++ [(stampName, want a)]

/-! ## The script -/

/-- Where the script is. -/
inductive Pc where
  /-- it does not run -/
  | idle
  -- `os.path.exists(stamp)`
  | look (a : Args)
  -- `f.read() == want`
  | read (a : Args)
  -- `os.path.exists(path)`
  | generate (a : Args)
  /-- `shutil.rmtree(path)`, with the names that are unlinked already -/
  | removing (a : Args) (removed : List Text)
  | makedirs (a : Args)
  /-- the files that are not yet open -/
  | opening (a : Args) (todo : List (Text × Text))
  /-- what is left to write to the open file -/
  | writing (a : Args) (name left : Text) (todo : List (Text × Text))
  | upToDate (a : Args)
  | generated (a : Args)
  deriving DecidableEq

/-- The directory, if it is there, and the script. -/
structure State where
  tree : Option (Dict Text Text)
  pc : Pc
  deriving DecidableEq

inductive Event where
  | start (force : Bool) (a : Args)
  /-- the next operation -/
  | go
  /-- the removal comes to a file, in any order -/
  | unlink (name : Text)
  /-- so many characters reach the file -/
  | write (n : Nat)
  /-- the script is interrupted -/
  | interrupt
  deriving DecidableEq

def stampOf (tree : Option (Dict Text Text)) : Option Text := tree.bind (Dict.get · stampName)

-- The next operation.
def goStep (rng : Analyze.Random ℚ) (s : State) : Pc → Option State
  | .idle => none
  | .look a => some { s with pc := if (stampOf s.tree).isSome then .read a else .generate a }
  | .read a =>
    some { s with pc := if stampOf s.tree = some (want a) then .upToDate a else .generate a }
  | .generate a => some { s with pc := if s.tree.isSome then .removing a [] else .makedirs a }
  | .removing a _ => if s.tree = some [] then some ⟨none, .makedirs a⟩ else none
  | .makedirs a => some ⟨some [], .opening a (outputs rng a)⟩
  | .opening a [] => some { s with pc := .generated a }
  | .opening a ((name, content) :: todo) =>
    some ⟨s.tree.map (Dict.update name [] fun _ => []), .writing a name content todo⟩
  | .writing a _ left todo => if left = [] then some { s with pc := .opening a todo } else none
  | .upToDate _ => some { s with pc := .idle }
  | .generated _ => some { s with pc := .idle }

def step (rng : Analyze.Random ℚ) (s : State) : Event → Option State
  | .start force a =>
    if s.pc = .idle then some { s with pc := if force then .generate a else .look a } else none
  | .go => goStep rng s s.pc
  | .unlink name =>
    match s.pc, s.tree with
    | .removing a removed, some d =>
      if name ∈ Dict.keys d then some ⟨some (Dict.erase name d), .removing a (name :: removed)⟩
      else none
    | _, _ => none
  | .write n =>
    match s.pc with
    | .writing a name left todo =>
      if 0 < n ∧ n ≤ left.length then
        some ⟨s.tree.map (Dict.update name [] (· ++ left.take n)),
          .writing a name (left.drop n) todo⟩
      else none
    | _ => none
  | .interrupt => if s.pc = .idle then none else some { s with pc := .idle }

def start : State := ⟨none, .idle⟩

/-! ## What is promised -/

/-- Every source file is there and the Makefile, with the content for these arguments. -/
def Complete (rng : Analyze.Random ℚ) (a : Args) (tree : Option (Dict Text Text)) : Prop :=
  ∃ d, tree = some d ∧ ∀ f ∈ produced rng a, Dict.get d f.1 = some f.2

/-- Where the script prints "up to date", the workload is there. -/
def Truthful (rng : Analyze.Random ℚ) (s : State) : Prop :=
  ∀ a, s.pc = .upToDate a → Complete rng a s.tree

/-- A removal that has begun is not interrupted before a stamp of some arguments has gone. -/
def Spares (s : State) (e : Event) : Prop :=
  e = .interrupt → ∀ a removed, s.pc = .removing a removed → removed ≠ [] →
    ∀ b, stampOf s.tree ≠ some (want b)

end Workload

end FakeBigLittle
