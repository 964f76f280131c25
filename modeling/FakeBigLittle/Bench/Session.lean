import FakeBigLittle.Bench.FlatArm
import FakeBigLittle.Bench.Plan
import FakeBigLittle.Dict
import FakeBigLittle.Runs

/-!
# The EPP in a session

`go` takes the EPP of every CPU for its own: each arm sets it, and the `finally` gives back what
was found. `bls --no-epp --persist` neither sets nor restores it, so between two writes of `go`
nothing changes it.
-/

namespace FakeBigLittle

open CString Runs

namespace Bench

def eppBig : Text := "performance".toList
def eppLittle : Text := "power".toList
def eppFlat : Text := "balance_performance".toList

/-! ## What the arms set -/

inductive EppArm where
  | all (value : Text)
  | partitioned
  /-- the probe has EPP power, the others have `value` -/
  | others (value : Text)
  deriving DecidableEq

/-- The argument of `apply_epp`. -/
def EppArm.mapping (b : Bench) (n : Nat) : EppArm → Dict Nat Text
  | .all value => Dict.ofPairs ((List.range n).map fun c => (c, value))
  | .partitioned =>
    Dict.ofPairs (b.big.map (fun c => (c, eppBig)) ++ b.little.map fun c => (c, eppLittle))
  | .others value =>
    match b.little with
    | [] => []
    | probe :: _ => Dict.setItem probe eppLittle
        (Dict.ofPairs (((List.range n).filter (· ≠ probe)).map fun c => (c, value)))

-- The `arms` of `e1_rail`.
def e1RailEpp : Dict Text EppArm :=
  [("both-performance".toList, .all eppBig), ("both-power".toList, .all eppLittle),
    ("both-balance".toList, .all eppFlat), ("partitioned".toList, .partitioned)]

def e1bPoisonEpp : Dict Text EppArm :=
  [("others-power".toList, .others eppLittle), ("others-balance".toList, .others eppFlat),
    ("others-performance".toList, .others eppBig),
    ("others-balance-power".toList, .others "balance_power".toList)]

def e2CouplingEpp : Dict Text EppArm :=
  [("partitioned".toList, .partitioned), ("flat".toList, .all eppFlat)]

def EppFactor.arm : EppFactor → EppArm
  | .partitioned => .partitioned
  | .flat => .all eppFlat

/-! ## What the session does -/

inductive Action where
  | writeEpp (cpu : Nat) (value : Text)
  /-- from the cooldown to the record -/
  | run (job : Job)
  | indexError

def applyEpp (mapping : Dict Nat Text) : List Action := mapping.map fun e => .writeEpp e.1 e.2

def armActions (b : Bench) (n : Nat) (arm : EppArm) (jobs : List Job) : List Action :=
  applyEpp (arm.mapping b n) ++ jobs.map .run

def e1RailActions (b : Bench) (n rep : Nat) : List Action :=
  if b.big = [] ∨ b.little = [] then [.indexError]
  else e1RailEpp.flatMap fun arm => armActions b n arm.2 [⟨"e1-rail".toList, arm.1, rep⟩]

def e1bPoisonActions (b : Bench) (n rep : Nat) : List Action :=
  if b.little = [] then [.indexError]
  else e1bPoisonEpp.flatMap fun arm => armActions b n arm.2 [⟨"e1b-poison".toList, arm.1, rep⟩]

/-- One setting of the EPP for all conditions. -/
def e2CouplingActions (b : Bench) (n rep : Nat) : List Action :=
  e2CouplingEpp.flatMap fun epp => armActions b n epp.2
    ((e2Conditions b).map fun cond => ⟨"e2-coupling".toList, epp.1 ++ '.' :: cond.1, rep⟩)

section Actions

variable (rng : Analyze.Random ℚ)

def e3AbActions (b : Bench) (n : Nat) : List Nat → rng.State → List Action
  | [], _ => []
  | rep :: reps, s =>
    let arms := shuffle rng e3Arms s
    (arms.1.flatMap fun arm => armActions b n arm.2.epp.arm [⟨"e3-ab".toList, arm.1, rep⟩]) ++
      e3AbActions b n reps arms.2

/-- The `try` block of `go`. -/
def sessionActions (args : Args) (b : Bench) (n : Nat) : List Action :=
  (if args.experiment.has .e1Rail then (List.range args.reps).flatMap (e1RailActions b n)
    else []) ++
    (if args.experiment.has .e1bPoison then (List.range args.reps).flatMap (e1bPoisonActions b n)
      else []) ++
    (if args.experiment.has .e2Coupling then
      (List.range args.reps).flatMap (e2CouplingActions b n) else []) ++
    (if args.experiment.has .e3Ab then
      e3AbActions rng b n (List.range args.reps) (rng.seed args.seed) else [])

end Actions

inductive SessionPc where
  | preflight
  | probe
  | warmup
  | body (actions : List Action)
  /-- in the `finally`, with these CPUs to restore -/
  | restore (cpus : List Nat)
  | over
  /-- interrupted in the `finally`, before these CPUs were restored -/
  | cut (cpus : List Nat)
  | killed

structure Harness where
  pc : SessionPc := .preflight
  /-- what the CPUs have -/
  epp : Nat → Text
  /-- the records, each with the EPP of its run -/
  measured : List (Job × (Nat → Text)) := []
  /-- the CPUs that could not be restored -/
  left : List Nat := []

inductive SessionEvent where
  /-- `preflight` returns -/
  | preflight (problems : List Text)
  /-- what is next comes back -/
  | done
  | osError
  /-- an exception, perhaps after the write or the record -/
  | raises (behind : Bool)
  | killed

/-- A step of the `try` block. There is no file for a CPU from `n` on. -/
def actionStep (n : Nat) (s : Harness) (actions : List Action) :
    Action → SessionEvent → Option Harness
  | .writeEpp cpu value, .done =>
    if cpu < n then some { s with epp := Function.update s.epp cpu value, pc := .body actions }
    else none
  | .writeEpp cpu value, .raises behind =>
    some { s with
      epp := if behind ∧ cpu < n then Function.update s.epp cpu value else s.epp
      pc := .restore (List.range n) }
  | .run job, .done => some { s with measured := s.measured ++ [(job, s.epp)], pc := .body actions }
  | .run job, .raises behind =>
    some { s with
      measured := if behind then s.measured ++ [(job, s.epp)] else s.measured
      pc := .restore (List.range n) }
  | .indexError, .raises _ => some { s with pc := .restore (List.range n) }
  | _, _ => none

/-- A step of `go`, where `saved` is `saved_epp`. -/
def sessionStep (rng : Analyze.Random ℚ) (args : Args) (b : Bench) (n : Nat) (saved : Nat → Text)
    (s : Harness) (e : SessionEvent) : Option Harness :=
  match s.pc, e with
  | .over, _ | .cut _, _ | .killed, _ => none
  | _, .killed => some { s with pc := .killed }
  | .preflight, .preflight problems =>
    some { s with pc := if problems ≠ [] ∧ args.planOnly = false then .over else .probe }
  | .probe, .done => some { s with pc := if args.planOnly then .over else .warmup }
  | .warmup, .done => some { s with pc := .body (sessionActions rng args b n) }
  | .preflight, .raises _ | .probe, .raises _ | .warmup, .raises _ => some { s with pc := .over }
  | .body (action :: actions), e => actionStep n s actions action e
  | .body [], .done | .body [], .raises _ => some { s with pc := .restore (List.range n) }
  | .restore (cpu :: cpus), .done =>
    some { s with epp := Function.update s.epp cpu (saved cpu), pc := .restore cpus }
  | .restore (cpu :: cpus), .osError => some { s with left := cpu :: s.left, pc := .restore cpus }
  | .restore (cpu :: cpus), .raises behind =>
    some { s with
      epp := if behind then Function.update s.epp cpu (saved cpu) else s.epp
      pc := .cut (cpu :: cpus) }
  | .restore [], .done | .restore [], .raises _ => some { s with pc := .over }
  | _, _ => none

/-! ## What a record says of the EPP -/

/-- The EPP that an arm says a CPU has. -/
def EppArm.wants (b : Bench) (cpu : Nat) : EppArm → Text
  | .all value => value
  | .partitioned => if cpu ∈ b.big then eppBig else eppLittle
  | .others value => if b.little.head? = some cpu then eppLittle else value

/-- The arm that a record names. -/
def namedEpp (job : Job) : Option EppArm :=
  if job.experiment = "e1-rail".toList then Dict.get e1RailEpp job.arm
  else if job.experiment = "e1b-poison".toList then Dict.get e1bPoisonEpp job.arm
  else if job.experiment = "e2-coupling".toList then
    Dict.get e2CouplingEpp (job.arm.takeWhile (· ≠ '.'))
  else if job.experiment = "e3-ab".toList then (Dict.get e3Arms job.arm).map fun f => f.epp.arm
  else none

/-- A run with the EPP that its record names, on all CPUs. -/
def MeasuredAs (b : Bench) (n : Nat) (job : Job) (epp : Nat → Text) : Prop :=
  ∃ arm, namedEpp job = some arm ∧ ∀ cpu < n, epp cpu = arm.wants b cpu

/-! ## The mappings -/

/-- Every CPU of the machine is in one of the two lists. -/
structure Shared (b : Bench) (n : Nat) : Prop where
  known : ∀ cpu < n, cpu ∈ b.big ∨ cpu ∈ b.little
  disjoint : b.big.Disjoint b.little

theorem init_shared {t : Topology} {argsBig : Option Text} {b : Bench}
    (h : init t argsBig = some b) : Shared b t.nrCpus := by
  have hdefault : Shared ⟨(defaultPartition t).1, (defaultPartition t).2⟩ t.nrCpus :=
    ⟨fun cpu hcpu => List.mem_append.mp (((defaultPartition_partitions t).covers cpu).mpr hcpu),
      (defaultPartition_partitions t).disjoint⟩
  unfold init at h
  split at h
  · exact Option.some.inj h ▸ hdefault
  · exact Option.some.inj h ▸ hdefault
  · obtain ⟨big, -, rfl⟩ := Option.map_eq_some_iff.mp h
    refine ⟨fun cpu hcpu => ?_, fun cpu hbig hlittle => ?_⟩
    · by_cases hbig : cpu ∈ big
      · exact Or.inl hbig
      · exact Or.inr (List.mem_filter.mpr ⟨List.mem_range.mpr hcpu, decide_eq_true hbig⟩)
    · exact of_decide_eq_true (List.mem_filter.mp hlittle).2 hbig

section Mappings

variable {b : Bench} {n cpu : Nat}

theorem get_comprehension (cpus : List Nat) (value : Text) :
    Dict.get (Dict.ofPairs (cpus.map fun c => (c, value))) cpu =
      if cpu ∈ cpus then some value else none := by
  rw [Dict.get_ofPairs, ← List.map_reverse]
  split_ifs with hmem
  · obtain ⟨e, hfind⟩ : ∃ e, (cpus.reverse.map fun c => (c, value)).find? (fun e => e.1 = cpu) =
        some e := by
      refine Option.isSome_iff_exists.mp (List.find?_isSome.mpr ⟨(cpu, value), ?_, by simp⟩)
      exact List.mem_map.mpr ⟨cpu, List.mem_reverse.mpr hmem, rfl⟩
    obtain ⟨c, -, rfl⟩ := List.mem_map.mp (List.mem_of_find?_eq_some hfind)
    rw [hfind]
    rfl
  · rw [List.find?_eq_none.mpr, Option.map_none]
    intro e he heq
    obtain ⟨c, hc, rfl⟩ := List.mem_map.mp he
    exact hmem (of_decide_eq_true heq ▸ List.mem_reverse.mp hc)

/-- Whatever is in both, the second counts. -/
theorem get_ofPairs_append (pairs pairs' : List (Nat × Text)) :
    Dict.get (Dict.ofPairs (pairs ++ pairs')) cpu =
      (Dict.get (Dict.ofPairs pairs') cpu).or (Dict.get (Dict.ofPairs pairs) cpu) := by
  rw [Dict.get_ofPairs, Dict.get_ofPairs, Dict.get_ofPairs, List.reverse_append,
    List.find?_append]
  cases List.find? (fun e => decide (e.1 = cpu)) pairs'.reverse <;> rfl

theorem get_mapping (hb : Shared b n) (hcpu : cpu < n) (arm : EppArm)
    (hprobe : b.little ≠ [] ∨ ∀ value, arm ≠ .others value) :
    Dict.get (arm.mapping b n) cpu = some (arm.wants b cpu) := by
  cases arm with
  | all value => exact (get_comprehension _ _).trans (if_pos (List.mem_range.mpr hcpu))
  | partitioned =>
    show Dict.get (Dict.ofPairs (_ ++ _)) cpu =
      some (if cpu ∈ b.big then eppBig else eppLittle)
    rw [get_ofPairs_append, get_comprehension, get_comprehension]
    by_cases hbig : cpu ∈ b.big
    · rw [if_neg fun hlittle => hb.disjoint hbig hlittle, if_pos hbig, if_pos hbig]
      rfl
    · rw [if_pos ((hb.known cpu hcpu).resolve_left hbig), if_neg hbig, if_neg hbig]
      rfl
  | others value =>
    rcases hprobe with hprobe | hprobe
    · obtain ⟨probe, cpus, hlittle⟩ := List.exists_cons_of_ne_nil hprobe
      have hhead : b.little.head? = some cpu ↔ cpu = probe := by
        rw [hlittle, List.head?_cons, Option.some.injEq, eq_comm]
      have hmapping : (EppArm.others value).mapping b n = Dict.setItem probe eppLittle
          (Dict.ofPairs (((List.range n).filter (· ≠ probe)).map fun c => (c, value))) := by
        simp only [EppArm.mapping, hlittle]
      show _ = some (if b.little.head? = some cpu then eppLittle else value)
      rw [hmapping, Dict.get_setItem, get_comprehension]
      by_cases heq : cpu = probe
      · rw [if_pos heq, if_pos (hhead.mpr heq)]
      · have hmem : cpu ∈ (List.range n).filter (· ≠ probe) :=
          List.mem_filter.mpr ⟨List.mem_range.mpr hcpu, decide_eq_true heq⟩
        rw [if_neg heq, if_neg (mt hhead.mp heq), if_pos hmem]
    · exact absurd rfl (hprobe value)

end Mappings

/-! ## The order of the actions -/

section Sound

variable {b : Bench} {n : Nat}

/-- Every run among the actions comes behind the writes for its arm, if they all come back. -/
def InOrder (b : Bench) (n : Nat) : (Nat → Text) → List Action → Prop
  | _, [] => True
  | epp, .writeEpp cpu value :: actions => InOrder b n (Function.update epp cpu value) actions
  | epp, .run job :: actions => MeasuredAs b n job epp ∧ InOrder b n epp actions
  | _, .indexError :: _ => True

/-- It does so whatever was set before. -/
def Sound (b : Bench) (n : Nat) (actions : List Action) : Prop := ∀ epp, InOrder b n epp actions

theorem inOrder_append {actions later : List Action} (hlater : Sound b n later) :
    ∀ {epp : Nat → Text}, InOrder b n epp actions → InOrder b n epp (actions ++ later) := by
  induction actions with
  | nil => exact fun _ => hlater _
  | cons action actions ih =>
    intro epp h
    cases action with
    | writeEpp cpu value => exact ih h
    | run job => exact ⟨h.1, ih h.2⟩
    | indexError => trivial

theorem Sound.append {actions later : List Action} (h : Sound b n actions)
    (hlater : Sound b n later) : Sound b n (actions ++ later) :=
  fun epp => inOrder_append hlater (h epp)

theorem sound_nil : Sound b n [] := fun _ => trivial

theorem Sound.flatMap {α : Type} {f : α → List Action} {xs : List α}
    (h : ∀ x ∈ xs, Sound b n (f x)) : Sound b n (xs.flatMap f) := by
  induction xs with
  | nil => exact sound_nil
  | cons x xs ih =>
    rw [List.flatMap_cons]
    exact (h x List.mem_cons_self).append (ih fun y hy => h y (List.mem_cons_of_mem _ hy))

theorem Sound.selected {actions : List Action} (h : Sound b n actions) (p : Bool) :
    Sound b n (if p then actions else []) := by
  cases p with
  | true => exact h
  | false => exact sound_nil

theorem inOrder_runs {jobs : List Job} {epp : Nat → Text}
    (h : ∀ job ∈ jobs, MeasuredAs b n job epp) : InOrder b n epp (jobs.map .run) := by
  induction jobs with
  | nil => trivial
  | cons job jobs ih =>
    exact ⟨h job List.mem_cons_self, ih fun j hj => h j (List.mem_cons_of_mem _ hj)⟩

theorem inOrder_applyEpp {actions : List Action} :
    ∀ {mapping : Dict Nat Text} {epp : Nat → Text}, (Dict.keys mapping).Nodup →
      (∀ epp' : Nat → Text, (∀ cpu, epp' cpu = (Dict.get mapping cpu).getD (epp cpu)) →
        InOrder b n epp' actions) → InOrder b n epp (applyEpp mapping ++ actions) := by
  intro mapping
  induction mapping with
  | nil => exact fun _ h => h _ fun _ => rfl
  | cons e mapping ih =>
    intro epp hnodup h
    obtain ⟨hnew, hnodup⟩ := List.nodup_cons.mp hnodup
    refine ih hnodup fun epp' hepp' => h epp' fun cpu => ?_
    rw [hepp' cpu]
    unfold Dict.get
    by_cases heq : e.1 = cpu
    · have hnone : mapping.find? (fun e => e.1 = cpu) = none := by
        refine List.find?_eq_none.mpr fun e' he' heq' => hnew ?_
        exact List.mem_map.mpr ⟨e', he', (of_decide_eq_true heq').trans heq.symm⟩
      rw [hnone, List.find?_cons_of_pos (by simpa using heq), ← heq]
      exact Function.update_self e.1 e.2 epp
    · rw [List.find?_cons_of_neg (by simpa using heq), Function.update_of_ne (Ne.symm heq)]

theorem nodup_mapping (arm : EppArm) : (Dict.keys (arm.mapping b n)).Nodup := by
  cases arm with
  | all value => exact Dict.nodup_ofPairs _
  | partitioned => exact Dict.nodup_ofPairs _
  | others value =>
    cases hlittle : b.little with
    | nil => simp only [EppArm.mapping, hlittle, Dict.keys, List.map_nil, List.nodup_nil]
    | cons probe cpus =>
      simp only [EppArm.mapping, hlittle]
      exact Dict.nodup_setItem (Dict.nodup_ofPairs _) _ _

/-- The writes of an arm give every CPU what the records of the arm name. -/
theorem sound_arm (hb : Shared b n) (arm : EppArm) {jobs : List Job}
    (hprobe : b.little ≠ [] ∨ ∀ value, arm ≠ .others value)
    (hnamed : ∀ job ∈ jobs, namedEpp job = some arm) : Sound b n (armActions b n arm jobs) := by
  intro epp
  refine inOrder_applyEpp (nodup_mapping arm) fun epp' hepp' => inOrder_runs fun job hjob => ?_
  refine ⟨arm, hnamed job hjob, fun cpu hcpu => ?_⟩
  rw [hepp' cpu, get_mapping hb hcpu arm hprobe]
  rfl

theorem namedEpp_e1Rail (arm : Text) (rep : Nat) :
    namedEpp ⟨"e1-rail".toList, arm, rep⟩ = Dict.get e1RailEpp arm := if_pos rfl

theorem namedEpp_e1bPoison (arm : Text) (rep : Nat) :
    namedEpp ⟨"e1b-poison".toList, arm, rep⟩ = Dict.get e1bPoisonEpp arm := by
  have h1 : "e1b-poison".toList ≠ "e1-rail".toList := by decide
  exact (if_neg h1).trans (if_pos rfl)

theorem namedEpp_e2Coupling (arm : Text) (rep : Nat) :
    namedEpp ⟨"e2-coupling".toList, arm, rep⟩ =
      Dict.get e2CouplingEpp (arm.takeWhile (· ≠ '.')) := by
  have h1 : "e2-coupling".toList ≠ "e1-rail".toList := by decide
  have h2 : "e2-coupling".toList ≠ "e1b-poison".toList := by decide
  exact (if_neg h1).trans ((if_neg h2).trans (if_pos rfl))

theorem namedEpp_e3Ab (arm : Text) (rep : Nat) :
    namedEpp ⟨"e3-ab".toList, arm, rep⟩ = (Dict.get e3Arms arm).map fun f => f.epp.arm := by
  have h1 : "e3-ab".toList ≠ "e1-rail".toList := by decide
  have h2 : "e3-ab".toList ≠ "e1b-poison".toList := by decide
  have h3 : "e3-ab".toList ≠ "e2-coupling".toList := by decide
  exact (if_neg h1).trans ((if_neg h2).trans ((if_neg h3).trans (if_pos rfl)))

theorem sound_e1Rail (hb : Shared b n) (rep : Nat) : Sound b n (e1RailActions b n rep) := by
  unfold e1RailActions
  split_ifs with hempty
  · exact fun _ => trivial
  · have hlittle : b.little ≠ [] := fun h => hempty (Or.inr h)
    have hget : ∀ arm ∈ e1RailEpp, Dict.get e1RailEpp arm.1 = some arm.2 := by decide
    refine Sound.flatMap fun arm harm => sound_arm hb arm.2 (Or.inl hlittle) fun job hjob => ?_
    rw [List.mem_singleton.mp hjob, namedEpp_e1Rail, hget arm harm]

theorem sound_e1bPoison (hb : Shared b n) (rep : Nat) : Sound b n (e1bPoisonActions b n rep) := by
  unfold e1bPoisonActions
  split_ifs with hempty
  · exact fun _ => trivial
  · have hget : ∀ arm ∈ e1bPoisonEpp, Dict.get e1bPoisonEpp arm.1 = some arm.2 := by decide
    refine Sound.flatMap fun arm harm => sound_arm hb arm.2 (Or.inl hempty) fun job hjob => ?_
    rw [List.mem_singleton.mp hjob, namedEpp_e1bPoison, hget arm harm]

/-- The name of the EPP is in front of the dot. -/
theorem sound_e2Coupling (hb : Shared b n) (rep : Nat) :
    Sound b n (e2CouplingActions b n rep) := by
  have hother : ∀ epp ∈ e2CouplingEpp, ∀ value, epp.2 ≠ .others value := by
    intro epp hepp value
    revert epp
    simp [e2CouplingEpp]
  have hnodot : ∀ epp ∈ e2CouplingEpp, epp.1.all (· ≠ '.') = true := by decide
  have hget : ∀ epp ∈ e2CouplingEpp, Dict.get e2CouplingEpp epp.1 = some epp.2 := by decide
  refine Sound.flatMap fun epp hepp => sound_arm hb epp.2 (Or.inr (hother epp hepp)) ?_
  intro job hjob
  obtain ⟨cond, -, rfl⟩ := List.mem_map.mp hjob
  have hname : (epp.1 ++ '.' :: cond.1).takeWhile (· ≠ '.') = epp.1 := by
    rw [List.takeWhile_append_of_pos (List.all_eq_true.mp (hnodot epp hepp)),
      List.takeWhile_cons_of_neg (by decide),
      List.append_nil]
  rw [namedEpp_e2Coupling, hname, hget epp hepp]

theorem sound_e3Ab (rng : Analyze.Random ℚ) (hb : Shared b n) (reps : List Nat) (s : rng.State) :
    Sound b n (e3AbActions rng b n reps s) := by
  induction reps generalizing s with
  | nil => exact sound_nil
  | cons rep reps ih =>
    refine Sound.append (Sound.flatMap fun arm harm => ?_) (ih _)
    have hother : ∀ value, arm.2.epp.arm ≠ .others value := by
      intro value
      cases arm.2.epp <;> simp [EppFactor.arm]
    have hget : ∀ arm ∈ e3Arms, Dict.get e3Arms arm.1 = some arm.2 := by decide
    refine sound_arm hb _ (Or.inr hother) fun job hjob => ?_
    rw [List.mem_singleton.mp hjob, namedEpp_e3Ab,
      hget arm ((shuffle_perm rng e3Arms s).mem_iff.mp harm)]
    rfl

theorem sound_session (rng : Analyze.Random ℚ) (args : Args) (hb : Shared b n) :
    Sound b n (sessionActions rng args b n) := by
  have h1 : Sound b n ((List.range args.reps).flatMap (e1RailActions b n)) :=
    Sound.flatMap fun rep _ => sound_e1Rail hb rep
  have h2 : Sound b n ((List.range args.reps).flatMap (e1bPoisonActions b n)) :=
    Sound.flatMap fun rep _ => sound_e1bPoison hb rep
  have h3 : Sound b n ((List.range args.reps).flatMap (e2CouplingActions b n)) :=
    Sound.flatMap fun rep _ => sound_e2Coupling hb rep
  have h4 := sound_e3Ab rng hb (List.range args.reps) (rng.seed args.seed)
  exact (((h1.selected _).append (h2.selected _)).append (h3.selected _)).append (h4.selected _)

end Sound

/-! ## The runs of the actions -/

section Planned

variable {b : Bench} {n : Nat}

/-- The run that an action is, as `jobs` lists it. -/
def Action.job : Action → Option (Option Job)
  | .writeEpp _ _ => none
  | .run job => some (some job)
  | .indexError => some none

theorem jobs_armActions (arm : EppArm) (jobs : List Job) :
    (armActions b n arm jobs).filterMap Action.job = jobs.map some := by
  have hwrites : (applyEpp (arm.mapping b n)).filterMap Action.job = [] := by
    refine List.filterMap_eq_nil_iff.mpr fun action haction => ?_
    obtain ⟨e, -, rfl⟩ := List.mem_map.mp haction
    rfl
  unfold armActions
  rw [List.filterMap_append, hwrites, List.nil_append, List.filterMap_map]
  exact congrFun (List.filterMap_eq_map (f := some)) jobs

/-- One run per arm. -/
theorem jobs_arms {α : Type} (arms : List α) (epp : α → EppArm) (job : α → Job) :
    (arms.flatMap fun arm => armActions b n (epp arm) [job arm]).filterMap Action.job =
      arms.map fun arm => some (job arm) := by
  induction arms with
  | nil => rfl
  | cons arm arms ih =>
    rw [List.flatMap_cons, List.filterMap_append, jobs_armActions, ih]
    rfl

theorem jobs_e1Rail (rep : Nat) :
    (e1RailActions b n rep).filterMap Action.job = repJobs (e1Rail b) rep := by
  unfold e1RailActions e1Rail
  cases b.big with
  | nil => rfl
  | cons big bigs =>
    cases b.little with
    | nil => rfl
    | cons little littles => exact jobs_arms _ _ _

theorem jobs_e1bPoison (rep : Nat) :
    (e1bPoisonActions b n rep).filterMap Action.job = repJobs (e1bPoison b) rep := by
  unfold e1bPoisonActions e1bPoison
  cases b.little with
  | nil => rfl
  | cons little littles => exact jobs_arms _ _ _

theorem jobs_e2Coupling (rep : Nat) :
    (e2CouplingActions b n rep).filterMap Action.job = repJobs (some (e2Coupling b)) rep := by
  unfold e2CouplingActions e2Coupling
  simp only [e2CouplingEpp, List.flatMap_cons, List.flatMap_nil, List.append_nil,
    List.filterMap_append, jobs_armActions, repJobs, List.map_append, List.map_map]
  rfl

theorem jobs_e3Ab (rng : Analyze.Random ℚ) (reps : List Nat) (s : rng.State) :
    (e3AbActions rng b n reps s).filterMap Action.job = e3Jobs rng reps s := by
  induction reps generalizing s with
  | nil => rfl
  | cons rep reps ih =>
    unfold e3AbActions e3Jobs
    rw [List.filterMap_append, ih, jobs_arms]

theorem jobs_session (rng : Analyze.Random ℚ) (args : Args) :
    (sessionActions rng args b n).filterMap Action.job = jobs rng args b := by
  have hreps : ∀ (p : Bool) (f : Nat → List Action) (arms : Option (List Arm)),
      (∀ rep, (f rep).filterMap Action.job = repJobs arms rep) →
      (if p then (List.range args.reps).flatMap f else []).filterMap Action.job =
        if p then fixedJobs arms args.reps else [] := by
    intro p f arms hf
    cases p with
    | false => rfl
    | true =>
      rw [if_pos rfl, if_pos rfl, List.filterMap_flatMap]
      exact congrArg (List.flatMap · _) (funext hf)
  unfold sessionActions jobs
  rw [List.filterMap_append, List.filterMap_append, List.filterMap_append,
    hreps _ _ _ jobs_e1Rail, hreps _ _ _ jobs_e1bPoison, hreps _ _ _ jobs_e2Coupling]
  congr 1
  split_ifs
  · exact jobs_e3Ab rng _ _
  · rfl

end Planned

/-! ## Whole sessions -/

section Whole

variable {rng : Analyze.Random ℚ} {args : Args} {b : Bench} {n : Nat} {found : Nat → Text}

/-- All but the last CPUs, which are still to come, and those that could not be restored, have
what was found. -/
def Restored (n : Nat) (found : Nat → Text) (s : Harness) (cpus : List Nat) : Prop :=
  cpus <:+ List.range n ∧ ∀ cpu < n, cpu ∉ cpus → cpu ∉ s.left → s.epp cpu = found cpu

/-- What holds where the session stands. -/
def Stands (rng : Analyze.Random ℚ) (args : Args) (b : Bench) (n : Nat) (found : Nat → Text)
    (s : Harness) : Prop :=
  match s.pc with
  | .preflight | .probe | .warmup => s.epp = found ∧ s.measured = []
  | .body actions => InOrder b n s.epp actions ∧
      s.measured.map (fun r => some r.1) ++ actions.filterMap Action.job = jobs rng args b
  | .restore cpus | .cut cpus => Restored n found s cpus
  | .over => Restored n found s []
  | .killed => True

structure SessionInv (rng : Analyze.Random ℚ) (args : Args) (b : Bench) (n : Nat)
    (found : Nat → Text) (s : Harness) : Prop where
  measured : ∀ r ∈ s.measured, MeasuredAs b n r.1 r.2
  planned : s.measured.map (fun r => some r.1) <+: jobs rng args b
  stands : Stands rng args b n found s

theorem restored_start (s : Harness) : Restored n found s (List.range n) :=
  ⟨List.suffix_rfl, fun _ hcpu hmem => absurd (List.mem_range.mpr hcpu) hmem⟩

theorem restored_of_eq {s : Harness} (h : s.epp = found) : Restored n found s [] :=
  ⟨List.nil_suffix, fun cpu _ _ _ => congrFun h cpu⟩

/-- A run that is done is a run of the plan, under the EPP of its arm. -/
theorem inv_measured {s : Harness} {job : Job} {actions : List Action} (measured : Bool)
    (h : SessionInv rng args b n found s) (hpc : s.pc = .body (.run job :: actions))
    {t : Harness} (hmeasured : t.measured =
      if measured then s.measured ++ [(job, s.epp)] else s.measured)
    (hstands : Stands rng args b n found t) : SessionInv rng args b n found t := by
  have hs := h.stands
  unfold Stands at hs
  rw [hpc] at hs
  obtain ⟨⟨hjob, -⟩, hplan⟩ := hs
  cases measured with
  | false =>
    rw [if_neg Bool.false_ne_true] at hmeasured
    exact ⟨hmeasured ▸ h.measured, hmeasured ▸ h.planned, hstands⟩
  | true =>
    rw [if_pos rfl] at hmeasured
    refine ⟨fun r hr => ?_, ?_, hstands⟩
    · rcases List.mem_append.mp (hmeasured ▸ hr) with hr | hr
      · exact h.measured r hr
      · rw [List.mem_singleton.mp hr]
        exact hjob
    · rw [hmeasured, ← hplan, List.map_append]
      exact ⟨_, List.append_assoc ..⟩

theorem inv_action {s t : Harness} {action : Action} {actions : List Action} {e : SessionEvent}
    (h : SessionInv rng args b n found s) (hpc : s.pc = .body (action :: actions))
    (hstep : actionStep n s actions action e = some t) : SessionInv rng args b n found t := by
  have hs := h.stands
  unfold Stands at hs
  rw [hpc] at hs
  obtain ⟨hsound, hplan⟩ := hs
  unfold actionStep at hstep
  split at hstep
  · split_ifs at hstep
    obtain rfl := Option.some.inj hstep
    exact ⟨h.measured, h.planned, hsound, hplan⟩
  · obtain rfl := Option.some.inj hstep
    exact ⟨h.measured, h.planned, restored_start _⟩
  · obtain rfl := Option.some.inj hstep
    refine inv_measured true h hpc rfl ⟨hsound.2, ?_⟩
    rw [← hplan, List.map_append]
    exact List.append_assoc ..
  · obtain rfl := Option.some.inj hstep
    exact inv_measured _ h hpc rfl (restored_start _)
  · obtain rfl := Option.some.inj hstep
    exact ⟨h.measured, h.planned, restored_start _⟩
  · cases hstep

theorem inv_session (hb : Shared b n) (s : Harness) (e : SessionEvent) (t : Harness)
    (h : SessionInv rng args b n found s) (hstep : sessionStep rng args b n found s e = some t) :
    SessionInv rng args b n found t := by
  have hs := h.stands
  have hquiet : t.measured = s.measured → Stands rng args b n found t →
      SessionInv rng args b n found t := fun hmeasured hstands =>
    ⟨hmeasured ▸ h.measured, hmeasured ▸ h.planned, hstands⟩
  unfold Stands at hs
  unfold sessionStep at hstep
  split at hstep
  next => cases hstep
  next => cases hstep
  next => cases hstep
  next =>
    obtain rfl := Option.some.inj hstep
    exact hquiet rfl trivial
  next hpc =>
    rw [hpc] at hs
    obtain rfl := Option.some.inj hstep
    refine hquiet rfl ?_
    unfold Stands
    split_ifs
    · exact restored_of_eq hs.1
    · exact hs
  next hpc =>
    rw [hpc] at hs
    obtain rfl := Option.some.inj hstep
    refine hquiet rfl ?_
    unfold Stands
    split_ifs
    · exact restored_of_eq hs.1
    · exact hs
  next hpc =>
    rw [hpc] at hs
    obtain rfl := Option.some.inj hstep
    have hnone : s.measured.map (fun r => some r.1) = [] := by rw [hs.2, List.map_nil]
    refine hquiet rfl ⟨sound_session rng args hb _, ?_⟩
    rw [jobs_session, hnone, List.nil_append]
  -- An exception before the `try` block: nothing was set.
  case h_8 hpc | h_9 hpc | h_10 hpc =>
    rw [hpc] at hs
    obtain rfl := Option.some.inj hstep
    exact hquiet rfl (restored_of_eq hs.1)
  next hpc _ => exact inv_action h hpc hstep
  case h_12 | h_13 =>
    obtain rfl := Option.some.inj hstep
    exact hquiet rfl (restored_start _)
  next cpu cpus hpc =>
    rw [hpc] at hs
    obtain rfl := Option.some.inj hstep
    refine hquiet rfl ⟨(List.suffix_cons _ _).trans hs.1, fun c hc hcpus hleft => ?_⟩
    by_cases heq : c = cpu
    · rw [heq]
      exact Function.update_self cpu (found cpu) s.epp
    · exact (Function.update_of_ne heq _ _).trans
        (hs.2 c hc (List.not_mem_cons_of_ne_of_not_mem heq hcpus) hleft)
  next cpu cpus hpc =>
    rw [hpc] at hs
    obtain rfl := Option.some.inj hstep
    refine hquiet rfl ⟨(List.suffix_cons _ _).trans hs.1, fun c hc hcpus hleft => ?_⟩
    obtain ⟨heq, hleft⟩ := List.ne_and_not_mem_of_not_mem_cons hleft
    exact hs.2 c hc (List.not_mem_cons_of_ne_of_not_mem heq hcpus) hleft
  next cpu cpus behind hpc =>
    rw [hpc] at hs
    obtain rfl := Option.some.inj hstep
    refine hquiet rfl ⟨hs.1, fun c hc hcpus hleft => ?_⟩
    have hold := hs.2 c hc hcpus hleft
    cases behind with
    | false => exact hold
    | true => exact (Function.update_of_ne (List.ne_of_not_mem_cons hcpus) _ _).trans hold
  case h_17 hpc | h_18 hpc =>
    rw [hpc] at hs
    obtain rfl := Option.some.inj hstep
    exact hquiet rfl hs
  next => cases hstep

/-- **Every run is measured under the EPP that its record names, and the session gives the EPP
back.** Whatever raises, wherever it is interrupted, the records are those of the first runs of
the plan, and each run had on every CPU what its arm stands for. When the session is over, every
CPU that could be restored has what was found, and when it is interrupted while it restores, those
before the interruption. -/
theorem session_gives_back (rng : Analyze.Random ℚ) (args : Args) (t : Topology)
    (argsBig : Option Text) (b : Bench) (hb : init t argsBig = some b) (found : Nat → Text)
    (es : List SessionEvent) (s : Harness)
    (hrun : run (sessionStep rng args b t.nrCpus found) { epp := found } es = some s) :
    (s.measured.map fun r => some r.1) <+: jobs rng args b ∧
      (∀ r ∈ s.measured, MeasuredAs b t.nrCpus r.1 r.2) ∧
      (s.pc = .over → ∀ cpu < t.nrCpus, cpu ∉ s.left → s.epp cpu = found cpu) ∧
      ∀ cpus, s.pc = .cut cpus → cpus <:+ List.range t.nrCpus ∧
        ∀ cpu < t.nrCpus, cpu ∉ cpus → cpu ∉ s.left → s.epp cpu = found cpu := by
  have h : SessionInv rng args b t.nrCpus found s := by
    refine inv_run (inv_session (init_shared hb)) es ?_ hrun
    exact ⟨List.forall_mem_nil _, List.nil_prefix, rfl, rfl⟩
  have hs := h.stands
  unfold Stands at hs
  refine ⟨h.planned, h.measured, fun hover cpu hcpu => ?_, fun cpus hcut => ?_⟩
  · rw [hover] at hs
    exact hs.2 cpu hcpu List.not_mem_nil
  · rw [hcut] at hs
    exact hs

/-- The second arm is interrupted, and CPU 1 cannot be restored. -/
theorem session_gives_back_interrupted :
    ∃ s, run (sessionStep Analyze.quarters ⟨.e1Rail, 1, 20, 1, false⟩ ⟨[0], [1]⟩ 2
        fun _ => eppFlat) { epp := fun _ => eppFlat }
        [.preflight [], .done, .done, .done, .done, .done, .done, .raises true, .done, .osError,
          .done] = some s ∧
      s.measured.map (·.1) = [⟨"e1-rail".toList, "both-performance".toList, 0⟩] ∧
      s.epp 0 = eppFlat ∧ s.left = [1] := by
  obtain ⟨s, hs, hpc, hleft, hlist⟩ : ∃ s, run (sessionStep Analyze.quarters
        ⟨.e1Rail, 1, 20, 1, false⟩ ⟨[0], [1]⟩ 2 fun _ => eppFlat) { epp := fun _ => eppFlat }
        [.preflight [], .done, .done, .done, .done, .done, .done, .raises true, .done, .osError,
          .done] = some s ∧ s.pc = .over ∧ s.left = [1] ∧
      s.measured.map (·.1) = [⟨"e1-rail".toList, "both-performance".toList, 0⟩] :=
    ⟨_, rfl, rfl, rfl, rfl⟩
  have hback := (session_gives_back Analyze.quarters ⟨.e1Rail, 1, 20, 1, false⟩
    ⟨2, fun c => c⟩ none ⟨[0], [1]⟩ (by decide) (fun _ => eppFlat) _ s hs).2.2.1 hpc 0 (by decide)
  exact ⟨s, hs, hlist, hback (by rw [hleft]; decide), hleft⟩

end Whole

end Bench

end FakeBigLittle
