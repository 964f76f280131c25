import Mathlib.Data.UInt

/-!
# Types shared by the BPF scheduler and its loader

`src/bls_common.h`. Arrays are functions of the index; a bound on the index is checked
where the source checks it.
-/

namespace FakeBigLittle

def blsMaxCpus : Nat := 64
def blsMaxCommRules : Nat := 16
-- `TASK_COMM_LEN`
def blsCommLen : Nat := 16

/-- Core domains. The domain is also the id of its DSQ. -/
inductive Dom where
  | big     -- low-EPP cores
  | little  -- high-EPP cores
  deriving DecidableEq, Repr

-- `dom ^ 1`
def Dom.other : Dom → Dom
  | .big => .little
  | .little => .big

@[simp] theorem Dom.other_ne (d : Dom) : d.other ≠ d := by cases d <;> simp [Dom.other]

theorem Dom.eq_or_eq_other (d e : Dom) : e = d ∨ e = d.other := by
  cases d <;> cases e <;> simp [Dom.other]

/-- How a task's domain is chosen, `enum bls_classify_mode`. -/
inductive ClassifyMode where
  | flat      -- everything is BIG: the control arm
  | comm      -- match `p->comm` against the rules
  | adaptive  -- EWMA of the on-CPU slice length
  | hybrid    -- comm rules first, EWMA otherwise
  deriving DecidableEq, Repr

-- Indices into the stats array.
inductive Stat where
  | enq | direct | dsqBig | dsqLittle | localHit | steal | noIdleInDom | reclassify
  | runBigMs | runLittleMs | tasksBig | tasksLittle
  deriving DecidableEq, Repr

/-- A comm-to-domain rule, `struct bls_comm_rule`. `len` is 0 in a rule that is off. -/
structure CommRule where
  comm : Nat → UInt8
  len : Nat
  domain : Dom

-- What the loader writes into `.rodata` and `.bss` before it attaches.
structure Config where
  nrCpus : Nat
  classifyMode : ClassifyMode
  strictDomains : Bool
  sliceBigNs : UInt64
  sliceLittleNs : UInt64
  bigSliceThreshNs : UInt64
  cpuDom : Nat → Dom
  commRules : Nat → CommRule

/-- What `--flat` asks for: one class, and no CPU set apart. -/
structure IsFlat (c : Config) : Prop where
  mode : c.classifyMode = .flat
  big : ∀ cpu, c.cpuDom cpu = .big

/-- `p->comm`: at most 15 bytes, none of them NUL. -/
structure Comm where
  bytes : List UInt8
  short : bytes.length < blsCommLen
  noNul : 0 ∉ bytes
  deriving DecidableEq

-- `comm[j]` in the NUL-padded buffer.
def Comm.byte (c : Comm) (j : Nat) : UInt8 := c.bytes.getD j 0

end FakeBigLittle
