import FakeBigLittle.Analyze.Bootstrap
import FakeBigLittle.Bench.FixedLoad
import FakeBigLittle.Bench.Partition
import FakeBigLittle.Decimal

/-!
# The plan and the session

`plan` counts the arms, and `go` runs them. One run gives one record, and the file is named by the
experiment, the arm and the repetition.
-/

namespace FakeBigLittle

open CString

namespace Bench

/-! ## Files -/

-- `os.path.join(a, b)`
def join (a b : Text) : Text :=
  if b.head? = some '/' then b
  else if a = [] ∨ a.getLast? = some '/' then a ++ b
  else a ++ '/' :: b

/-- A run of an arm. -/
structure Job where
  experiment : Text
  arm : Text
  rep : Nat
  deriving DecidableEq

def runPath (raw ext : Text) (job : Job) : Text :=
  join (join raw job.experiment)
    (job.arm ++ ".rep".toList ++ Decimal.padded 2 job.rep ++ '.' :: ext)

-- The `path` of `record`.
def recordPath (raw : Text) (job : Job) : Text := runPath raw "json".toList job

def csvPath (raw : Text) (job : Job) : Text := runPath raw "csv".toList job

/-! ## The plan -/

-- `args.experiment`
inductive Selection where
  | all
  | e1Rail
  | e1bPoison
  | e2Coupling
  | e3Ab
  deriving DecidableEq

-- `args.experiment in (x, "all")`
def Selection.has (s x : Selection) : Bool := s == x || s == .all

structure Args where
  experiment : Selection
  reps : Nat
  dur : ℚ
  seed : Int
  planOnly : Bool

structure Planned where
  experiment : Text
  nrArms : Nat
  secs : ℚ

def plan (args : Args) (b : Bench) : List Planned :=
  (if args.experiment.has .e1Rail then [⟨"e1-rail".toList, 4, args.dur⟩] else []) ++
    (if args.experiment.has .e1bPoison then [⟨"e1b-poison".toList, 4, args.dur⟩] else []) ++
    (if args.experiment.has .e2Coupling then
      [⟨"e2-coupling".toList, 2 * (e2Conditions b).length, args.dur⟩] else []) ++
    (if args.experiment.has .e3Ab then [⟨"e3-ab".toList, e3Arms.length, 30⟩] else [])

-- `total_runs` of `print_plan`
def totalRuns (args : Args) (b : Bench) : Nat :=
  ((plan args b).map fun p => p.nrArms * args.reps).sum

/-! ## The runs -/

section Runs

variable {α : Type} (rng : Analyze.Random ℚ)

def swap (xs : List α) (i j : Nat) : List α :=
  match xs[i]?, xs[j]? with
  | some a, some b => (xs.set i b).set j a
  | _, _ => xs

-- `rng.shuffle(xs)`
def shuffle (xs : List α) (s : rng.State) : List α × rng.State :=
  (List.range' 1 (xs.length - 1)).reverse.foldl
    (fun acc i =>
      let draw := rng.randbelow (i + 1) acc.2
      (swap acc.1 i draw.1, draw.2))
    (xs, s)

/-- The runs of a repetition; `none` is `IndexError`. -/
def repJobs (arms : Option (List Arm)) (rep : Nat) : List (Option Job) :=
  match arms with
  | none => [none]
  | some arms => arms.map fun arm => some ⟨arm.experiment, arm.name, rep⟩

def fixedJobs (arms : Option (List Arm)) (reps : Nat) : List (Option Job) :=
  (List.range reps).flatMap (repJobs arms)

/-- Every repetition runs the arms in a fresh order. -/
def e3Jobs : List Nat → rng.State → List (Option Job)
  | [], _ => []
  | rep :: reps, s =>
    let arms := shuffle rng e3Arms s
    arms.1.map (fun arm => some ⟨"e3-ab".toList, arm.1, rep⟩) ++ e3Jobs reps arms.2

def jobs (args : Args) (b : Bench) : List (Option Job) :=
  (if args.experiment.has .e1Rail then fixedJobs (e1Rail b) args.reps else []) ++
    (if args.experiment.has .e1bPoison then fixedJobs (e1bPoison b) args.reps else []) ++
    (if args.experiment.has .e2Coupling then fixedJobs (some (e2Coupling b)) args.reps else []) ++
    (if args.experiment.has .e3Ab then e3Jobs rng (List.range args.reps) (rng.seed args.seed)
      else [])

end Runs

/-! ## The session -/

/-- What becomes of a run, with the setting of the EPP before it. -/
inductive Made where
  /-- it raises before it writes its record -/
  | lost
  /-- it raises behind it -/
  | broken (ok : Bool)
  | ended (ok : Bool)

/-- What the session meets. -/
structure Surroundings where
  -- `preflight()`
  problems : List Text
  /-- the idle floor is measured and the plan printed -/
  probed : Bool
  /-- `warmup` comes back -/
  warmed : Bool
  made : Job → Made
  /-- so does `restore_epp` -/
  restored : Bool

/-- The records that are written, and what is returned; `none` where the session raises. -/
structure Session where
  records : List (Job × Bool)
  returned : Option Nat

/-- The loops of `go`: the records, and whether no run raises. -/
def perform (made : Job → Made) : List (Option Job) → List (Job × Bool) × Bool
  | [] => ([], true)
  | none :: _ => ([], false)
  | some job :: jobs =>
    match made job with
    | .lost => ([], false)
    | .broken ok => ([(job, ok)], false)
    | .ended ok => ((job, ok) :: (perform made jobs).1, (perform made jobs).2)

def go (rng : Analyze.Random ℚ) (w : Surroundings) (args : Args) (b : Bench) : Session :=
  if w.problems ≠ [] ∧ args.planOnly = false then ⟨[], some 1⟩
  else if w.probed = false then ⟨[], none⟩
  else if args.planOnly then ⟨[], some 0⟩
  else if w.warmed = false then ⟨[], none⟩
  else
    let performed := perform w.made (jobs rng args b)
    ⟨performed.1, if performed.2 && w.restored then some 0 else none⟩

/-- In a session that measures to its end, every run left its record. -/
theorem perform_all {made : Job → Made} {jobs : List (Option Job)}
    (h : (perform made jobs).2 = true) : (perform made jobs).1.map (some ·.1) = jobs := by
  induction jobs with
  | nil => rfl
  | cons job jobs ih =>
    cases job with
    | none => simp [perform] at h
    | some job =>
      unfold perform at h ⊢
      split at h
      · simp at h
      · simp at h
      · rw [List.map_cons, ih h]

theorem go_all {rng : Analyze.Random ℚ} {w : Surroundings} {args : Args} {b : Bench}
    (hplan : args.planOnly = false) (h : (go rng w args b).returned = some 0) :
    (go rng w args b).records.map (some ·.1) = jobs rng args b := by
  unfold go at h ⊢
  split_ifs at h ⊢ with hproblems hprobed honly hwarmed
  · simp at h
  · simp [hplan] at honly
  · refine perform_all ?_
    by_contra hraised
    simp [hraised] at h

/-! ## Shuffles -/

section Shuffle

variable {α : Type}

theorem swap_perm (xs : List α) (i j : Nat) : (swap xs i j).Perm xs := by
  unfold swap
  split
  next a b ha hb =>
    obtain ⟨hi, rfl⟩ := List.getElem?_eq_some_iff.mp ha
    obtain ⟨hj, rfl⟩ := List.getElem?_eq_some_iff.mp hb
    exact List.set_set_perm hi hj
  next => exact .refl _

theorem shuffle_perm (rng : Analyze.Random ℚ) (xs : List α) (s : rng.State) :
    (shuffle rng xs s).1.Perm xs := by
  unfold shuffle
  generalize (List.range' 1 (xs.length - 1)).reverse = is
  have hrun : ∀ (acc : List α × rng.State), acc.1.Perm xs →
      (is.foldl (fun acc i =>
        let draw := rng.randbelow (i + 1) acc.2
        (swap acc.1 i draw.1, draw.2)) acc).1.Perm xs := by
    induction is with
    | nil => exact fun acc h => h
    | cons i is ih => exact fun acc h => ih _ ((swap_perm ..).trans h)
  exact hrun _ (.refl _)

end Shuffle

/-! ## The names of the files -/

/-- No separator is inside the names of a run. -/
structure Plain (job : Job) : Prop where
  experiment_ne : job.experiment ≠ []
  experiment : '/' ∉ job.experiment
  arm : '/' ∉ job.arm

/-- What `join` puts before a relative path. -/
def joinBase (a : Text) : Text := if a = [] ∨ a.getLast? = some '/' then a else a ++ ['/']

theorem join_eq (a : Text) {b : Text} (hb : '/' ∉ b) : join a b = joinBase a ++ b := by
  have hhead : b.head? ≠ some '/' := fun h => hb (List.mem_of_head? h)
  unfold join joinBase
  rw [if_neg hhead]
  split_ifs
  · rfl
  · simp

theorem slash_notMem_padded (n : Nat) : '/' ∉ Decimal.padded 2 n := fun h =>
  absurd (Decimal.padded_isDigit h) (by decide)

/-- The name of a file gives back the arm, the repetition and the extension. -/
theorem fileName_injective {arm arm' ext ext' : Text} {rep rep' : Nat} (hext : '.' ∉ ext)
    (hext' : '.' ∉ ext') (h : arm ++ ".rep".toList ++ Decimal.padded 2 rep ++ '.' :: ext =
      arm' ++ ".rep".toList ++ Decimal.padded 2 rep' ++ '.' :: ext') :
    arm = arm' ∧ rep = rep' ∧ ext = ext' := by
  -- Both ends are read from behind: first the last dot, then the letter before the digits.
  have hback := congrArg List.reverse h
  have hdigits : ∀ n, 'p' ∉ (Decimal.padded 2 n).reverse := by
    intro n hmem
    exact absurd (Decimal.padded_isDigit (List.mem_reverse.mp hmem)) (by decide)
  simp only [List.reverse_append, List.reverse_cons, List.append_assoc, List.singleton_append]
    at hback
  obtain ⟨hexts, hstems⟩ := sep_injective (by simpa using hext) (by simpa using hext') hback
  have hrep : ∀ arm : Text, ".rep".toList.reverse ++ arm.reverse =
      'p' :: ("er.".toList ++ arm.reverse) := fun _ => rfl
  rw [hrep, hrep] at hstems
  obtain ⟨hreps, harms⟩ := sep_injective (hdigits rep) (hdigits rep') hstems
  exact ⟨List.reverse_injective (List.append_cancel_left harms),
    Decimal.padded_injective (List.reverse_injective hreps), List.reverse_injective hexts⟩

theorem runPath_injective {raw ext ext' : Text} {job job' : Job} (hext : '.' ∉ ext ∧ '/' ∉ ext)
    (hext' : '.' ∉ ext' ∧ '/' ∉ ext') (hjob : Plain job) (hjob' : Plain job')
    (h : runPath raw ext job = runPath raw ext' job') : job = job' ∧ ext = ext' := by
  have hpath : ∀ {ext : Text} {job : Job}, '/' ∉ ext → Plain job → runPath raw ext job =
      joinBase raw ++ (job.experiment ++ '/' ::
        (job.arm ++ ".rep".toList ++ Decimal.padded 2 job.rep ++ '.' :: ext)) := by
    intro ext job hext hjob
    have hfile : '/' ∉ job.arm ++ ".rep".toList ++ Decimal.padded 2 job.rep ++ '.' :: ext := by
      simp [hjob.arm, slash_notMem_padded, hext]
    have hdir : joinBase (joinBase raw ++ job.experiment) =
        joinBase raw ++ job.experiment ++ ['/'] := by
      have hlast : (joinBase raw ++ job.experiment).getLast? ≠ some '/' := by
        rw [List.getLast?_append_of_ne_nil _ hjob.experiment_ne]
        exact fun hlast => hjob.experiment (List.mem_of_getLast? hlast)
      exact if_neg (by rintro (h | h); exacts [hjob.experiment_ne (by simp_all), hlast h])
    unfold runPath
    rw [join_eq _ hfile, join_eq _ hjob.experiment, hdir]
    simp
  rw [hpath hext.2 hjob, hpath hext'.2 hjob'] at h
  obtain ⟨hexperiment, hfile⟩ := sep_injective hjob.experiment hjob'.experiment
    (List.append_cancel_left h)
  obtain ⟨harm, hrep, hexts⟩ := fileName_injective hext.1 hext'.1 hfile
  refine ⟨?_, hexts⟩
  cases job
  cases job'
  simp_all

/-! ## The runs of an experiment -/

/-- Repetitions of an experiment, each with `n` arms in any order. -/
inductive Rounds (experiment : Text) (n : Nat) : List Nat → List (Option Job) → Prop where
  | nil : Rounds experiment n [] []
  | cons {rep : Nat} {reps : List Nat} {later : List (Option Job)} (arms : List Text)
      (hlength : arms.length = n) (hnodup : arms.Nodup) (hplain : ∀ arm ∈ arms, '/' ∉ arm)
      (hlater : Rounds experiment n reps later) :
      Rounds experiment n (rep :: reps)
        (arms.map (fun arm => some ⟨experiment, arm, rep⟩) ++ later)

/-- The runs of an experiment: none of them twice. -/
structure Phase (experiment : Text) (n : Nat) (jobs : List (Option Job)) : Prop where
  length : jobs.length = n
  nodup : jobs.Nodup
  plain : ∀ j ∈ jobs, ∃ job, j = some job ∧ job.experiment = experiment ∧ '/' ∉ job.arm

section Rounds

variable {experiment : Text} {n : Nat} {reps : List Nat} {jobs : List (Option Job)}

theorem Rounds.mem (h : Rounds experiment n reps jobs) : ∀ j ∈ jobs, ∃ job, j = some job ∧
    job.experiment = experiment ∧ '/' ∉ job.arm ∧ job.rep ∈ reps := by
  induction h with
  | nil => simp
  | cons arms _ _ hplain _ ih =>
    intro j hj
    rcases List.mem_append.mp hj with hj | hj
    · obtain ⟨arm, harm, rfl⟩ := List.mem_map.mp hj
      exact ⟨_, rfl, rfl, hplain arm harm, List.mem_cons_self⟩
    · obtain ⟨job, rfl, hexperiment, harm, hrep⟩ := ih j hj
      exact ⟨job, rfl, hexperiment, harm, List.mem_cons_of_mem _ hrep⟩

theorem Rounds.phase (h : Rounds experiment n reps jobs) (hreps : reps.Nodup) :
    Phase experiment (n * reps.length) jobs := by
  refine ⟨?_, ?_, fun j hj => ?_⟩
  · induction h with
    | nil => rfl
    | cons arms hlength _ _ _ ih =>
      rw [List.length_append, List.length_map, hlength, ih hreps.of_cons, List.length_cons]
      ring
  · induction h with
    | nil => exact List.nodup_nil
    | @cons rep _ _ arms _ hnodup _ hlater ih =>
      obtain ⟨hnew, hreps⟩ := List.nodup_cons.mp hreps
      have harms : Function.Injective fun arm => some (Job.mk experiment arm rep) := by
        intro arm arm' heq
        simpa using heq
      refine List.Nodup.append (hnodup.map harms) (ih hreps) ?_
      -- A later run has another repetition.
      intro j hj hj'
      obtain ⟨arm, -, rfl⟩ := List.mem_map.mp hj
      obtain ⟨job, heq, -, -, hrep⟩ := hlater.mem _ hj'
      rw [← Option.some.inj heq] at hrep
      exact hnew hrep
  · obtain ⟨job, hjob, hexperiment, harm, -⟩ := h.mem j hj
    exact ⟨job, hjob, hexperiment, harm⟩

theorem fixedJobs_phase {arms : List Arm} (hexperiment : ∀ arm ∈ arms, arm.experiment = experiment)
    (hnodup : (arms.map (·.name)).Nodup) (hplain : ∀ arm ∈ arms, '/' ∉ arm.name) (n : Nat) :
    Phase experiment (arms.length * n) (fixedJobs (some arms) n) := by
  have hrounds : ∀ reps,
      Rounds experiment arms.length reps (reps.flatMap (repJobs (some arms))) := by
    intro reps
    induction reps with
    | nil => exact .nil
    | cons rep reps ih =>
      have hjobs : repJobs (some arms) rep =
          (arms.map (·.name)).map fun name => some ⟨experiment, name, rep⟩ := by
        rw [repJobs, List.map_map]
        exact List.map_congr_left fun arm harm => by rw [hexperiment arm harm]; rfl
      rw [List.flatMap_cons, hjobs]
      exact .cons _ (List.length_map _) hnodup (by simpa using hplain) ih
  have hphase := (hrounds (List.range n)).phase List.nodup_range
  rwa [List.length_range] at hphase

theorem e3Jobs_phase (rng : Analyze.Random ℚ) (n : Nat) (s : rng.State) :
    Phase "e3-ab".toList (e3Arms.length * n) (e3Jobs rng (List.range n) s) := by
  have hnames : (e3Arms.map (·.1)).Nodup ∧ ∀ name ∈ e3Arms.map (·.1), '/' ∉ name := by decide
  have hrounds : ∀ reps s, Rounds "e3-ab".toList e3Arms.length reps (e3Jobs rng reps s) := by
    intro reps
    induction reps with
    | nil => exact fun _ => .nil
    | cons rep reps ih =>
      intro s
      have hperm := (shuffle_perm rng e3Arms s).map (·.1)
      have hjobs : (shuffle rng e3Arms s).1.map
          (fun arm => some (Job.mk "e3-ab".toList arm.1 rep)) =
          ((shuffle rng e3Arms s).1.map (·.1)).map
            fun name => some ⟨"e3-ab".toList, name, rep⟩ := by
        rw [List.map_map]
        rfl
      rw [e3Jobs, hjobs]
      refine .cons _ ?_ (hperm.nodup_iff.mpr hnames.1)
        (fun name hname => hnames.2 name (hperm.mem_iff.mp hname)) (ih _)
      rw [hperm.length_eq, List.length_map]
  have hphase := (hrounds (List.range n) s).phase List.nodup_range
  rwa [List.length_range] at hphase

end Rounds

/-! ## The conditions of `e2` -/

/-- Two lists of CPUs, as `__init__` makes them. -/
structure Split (b : Bench) : Prop where
  big_ne : b.big ≠ []
  little_ne : b.little ≠ []
  big_sorted : b.big.Pairwise (· ≤ ·)
  little_sorted : b.little.Pairwise (· < ·)
  disjoint : b.big.Disjoint b.little

-- The name of a condition says how many CPUs of each kind are loaded.
def statedBig (name : Text) : Nat := if "big1".toList.isPrefixOf name then 1 else 0

def statedLittle (name : Text) : Nat :=
  if name = "big1".toList then 0 else Nat.ofDigitChars 10 (name.rtakeWhile Char.isDigit) 0

/-- The CPUs of a condition are those that its name states, and the text for `spin` names them. -/
structure Loads (b : Bench) (name : Text) (cpus : List Nat) : Prop where
  ne : cpus ≠ []
  named : parseCpulist (cpulist cpus) = some cpus
  nodup : cpus.Nodup
  known : ∀ cpu ∈ cpus, cpu ∈ b.big ∨ cpu ∈ b.little
  big : (cpus.filter (· ∈ b.big)).length = statedBig name
  little : (cpus.filter (· ∈ b.little)).length = statedLittle name

theorem str_injective {k k' : Nat} (h : str k = str k') : k = k' :=
  Option.some.inj ((int_str k).symm.trans ((congrArg int h).trans (int_str k')))

-- `sorted({1, 2, len(self.little)})`, as far as there are so many
def littleCounts (b : Bench) : List Nat :=
  (sorted [1, 2, b.little.length].dedup).filter (· ≤ b.little.length)

theorem mem_littleCounts {b : Bench} (hne : b.little ≠ []) {k : Nat} (h : k ∈ littleCounts b) :
    0 < k ∧ k ≤ b.little.length := by
  obtain ⟨hmem, hle⟩ := List.mem_filter.mp h
  have hlength : 0 < b.little.length := List.length_pos_iff.mpr hne
  have hcases : k = 1 ∨ k = 2 ∨ k = b.little.length := by
    simpa using List.mem_dedup.mp (mem_sorted.mp hmem)
  refine ⟨?_, of_decide_eq_true hle⟩
  omega

theorem littleCounts_nodup (b : Bench) : (littleCounts b).Nodup := by
  refine List.Nodup.filter _ ?_
  exact ((List.perm_insertionSort _ _).nodup_iff).mpr (List.nodup_dedup _)

section Conditions

variable {b : Bench}

theorem statedLittle_digits (front : Text) {c : Char} (hc : c.isDigit = false)
    (hne : ∀ k, front ++ c :: str k ≠ "big1".toList) (k : Nat) :
    statedLittle (front ++ c :: str k) = k := by
  have hdigits : (front ++ c :: str k).rtakeWhile Char.isDigit = str k := by
    unfold List.rtakeWhile
    rw [List.reverse_append, List.reverse_cons, List.append_assoc,
      List.takeWhile_append_of_pos (by simpa using fun d hd => isDigit_str hd)]
    simp [hc]
  unfold statedLittle
  rw [if_neg (hne k), hdigits]
  exact Nat.ofDigitChars_ten_toDigits

theorem filter_big_take (hb : Split b) (k : Nat) : (b.little.take k).filter (· ∈ b.big) = [] := by
  rw [List.filter_eq_nil_iff]
  intro cpu hcpu hbig
  exact hb.disjoint (of_decide_eq_true hbig) (List.mem_of_mem_take hcpu)

theorem filter_little_take (k : Nat) :
    (b.little.take k).filter (· ∈ b.little) = b.little.take k := by
  rw [List.filter_eq_self]
  exact fun cpu hcpu => decide_eq_true (List.mem_of_mem_take hcpu)

theorem loads_little (hb : Split b) {k : Nat} (hk : 0 < k) (hle : k ≤ b.little.length) :
    Loads b ("little".toList ++ str k) (b.little.take k) := by
  have hsorted : (b.little.take k).Pairwise (· < ·) :=
    hb.little_sorted.sublist (List.take_sublist ..)
  have hlength : (b.little.take k).length = k := by simpa using hle
  have hne : b.little.take k ≠ [] := List.ne_nil_of_length_pos (by omega)
  refine ⟨hne, bench_cpulist hsorted hne, hsorted.nodup, fun cpu hcpu => .inr
    (List.mem_of_mem_take hcpu), ?_, ?_⟩
  · rw [filter_big_take hb]
    rfl
  · rw [filter_little_take, hlength]
    refine (statedLittle_digits "littl".toList (c := 'e') (by decide) (fun k h => ?_) k).symm
    exact absurd (List.cons.inj h).1 (by decide)

theorem loads_both (hb : Split b) {k : Nat} (hle : k ≤ b.little.length) :
    Loads b ("big1+little".toList ++ str k) (sorted (b.big.take 1 ++ b.little.take k)) := by
  obtain ⟨c, cs, hbig⟩ := List.exists_cons_of_ne_nil hb.big_ne
  have hc : c ∈ b.big := hbig ▸ List.mem_cons_self
  have hnew : c ∉ b.little.take k := fun h => hb.disjoint hc (List.mem_of_mem_take h)
  have htake : b.big.take 1 ++ b.little.take k = c :: b.little.take k := by
    rw [hbig]
    rfl
  have hperm : (sorted (b.big.take 1 ++ b.little.take k)).Perm (c :: b.little.take k) :=
    htake ▸ List.perm_insertionSort _ _
  have hnodup : (sorted (b.big.take 1 ++ b.little.take k)).Nodup :=
    hperm.nodup_iff.mpr (List.nodup_cons.mpr
      ⟨hnew, (hb.little_sorted.sublist (List.take_sublist ..)).nodup⟩)
  have hsorted : (sorted (b.big.take 1 ++ b.little.take k)).Pairwise (· < ·) := by
    have hle := List.pairwise_insertionSort (· ≤ ·) (b.big.take 1 ++ b.little.take k)
    exact (hle.and hnodup).imp fun h => lt_of_le_of_ne h.1 h.2
  have hne : sorted (b.big.take 1 ++ b.little.take k) ≠ [] := by
    intro hnil
    rw [hnil] at hperm
    exact absurd hperm.length_eq (by simp)
  refine ⟨hne, bench_cpulist hsorted hne, hnodup, fun cpu hcpu => ?_, ?_, ?_⟩
  · rcases List.mem_cons.mp (hperm.mem_iff.mp hcpu) with rfl | hcpu
    · exact .inl hc
    · exact .inr (List.mem_of_mem_take hcpu)
  · rw [(hperm.filter _).length_eq, List.filter_cons_of_pos (by simpa using hc),
      filter_big_take hb]
    rfl
  · have hlittle : c ∉ b.little := fun h => hb.disjoint hc h
    rw [(hperm.filter _).length_eq, List.filter_cons_of_neg (by simpa using hlittle),
      filter_little_take, List.length_take, min_eq_left hle]
    refine (statedLittle_digits "big1+littl".toList (c := 'e') (by decide) (fun k h => ?_) k).symm
    exact absurd (congrArg List.length h) (by simp)

theorem loads_big (hb : Split b) : Loads b "big1".toList (b.big.take 1) := by
  obtain ⟨c, cs, hbig⟩ := List.exists_cons_of_ne_nil hb.big_ne
  have hc : c ∈ b.big := hbig ▸ List.mem_cons_self
  have htake : b.big.take 1 = [c] := by
    rw [hbig]
    rfl
  rw [htake]
  refine ⟨List.cons_ne_nil _ _, bench_cpulist (List.pairwise_singleton _ _) (List.cons_ne_nil _ _),
    List.nodup_singleton c, fun cpu hcpu => .inl (List.mem_singleton.mp hcpu ▸ hc), ?_, ?_⟩
  · rw [List.filter_cons_of_pos (by simpa using hc)]
    rfl
  · have hlittle : c ∉ b.little := fun h => hb.disjoint hc h
    rw [List.filter_cons_of_neg (by simpa using hlittle)]
    rfl

theorem e2Conditions_loads (hb : Split b) : ∀ cond ∈ e2Conditions b, cond.1 ≠ "idle".toList →
    ∃ cpus, cond.2 = some cpus ∧ Loads b cond.1 cpus := by
  intro cond hcond hidle
  rcases List.mem_append.mp hcond with hcond | hcond
  · rcases List.mem_cons.mp hcond with rfl | hcond
    · exact absurd rfl hidle
    obtain ⟨k, hk, hcond⟩ := List.mem_flatMap.mp hcond
    obtain ⟨hpos, hle⟩ := mem_littleCounts hb.little_ne hk
    rcases List.mem_cons.mp hcond with rfl | hcond
    · exact ⟨_, rfl, loads_little hb hpos hle⟩
    · rw [List.mem_singleton.mp hcond]
      exact ⟨_, rfl, loads_both hb hle⟩
  · rw [List.mem_singleton.mp hcond]
    exact ⟨_, rfl, loads_big hb⟩

/-- No condition is there twice. -/
theorem e2Conditions_nodup (b : Bench) : ((e2Conditions b).map (·.1)).Nodup := by
  have hnames : (e2Conditions b).map (·.1) = "idle".toList :: (littleCounts b).flatMap (fun k =>
      ["little".toList ++ str k, "big1+little".toList ++ str k]) ++ ["big1".toList] := by
    unfold e2Conditions littleCounts
    rw [List.map_append, List.map_cons, List.map_flatMap]
    rfl
  -- The first letters differ, or the lengths do.
  have hlittle : ∀ {k : Nat} {t : Text}, "little".toList ++ str k = 'b' :: t → False :=
    fun h => absurd (List.cons.inj h).1 (by decide)
  have hboth : ∀ {k : Nat}, "big1+little".toList ++ str k = "big1".toList → False :=
    fun h => absurd (congrArg List.length h) (by simp)
  have hcounts : ((littleCounts b).flatMap fun k =>
      ["little".toList ++ str k, "big1+little".toList ++ str k]).Nodup := by
    refine List.nodup_flatMap.mpr ⟨fun k _ => ?_, ?_⟩
    · exact List.nodup_cons.mpr ⟨fun h => hlittle (List.mem_singleton.mp h),
        List.nodup_singleton _⟩
    · refine (littleCounts_nodup b).imp fun {k k'} hne => ?_
      intro name hname hname'
      rcases List.mem_cons.mp hname with rfl | hname <;>
        rcases List.mem_cons.mp hname' with hname' | hname'
      · exact hne (str_injective (List.append_cancel_left hname'))
      · exact hlittle (List.mem_singleton.mp hname')
      · exact hlittle (hname'.symm.trans (List.mem_singleton.mp hname))
      · have heq := (List.mem_singleton.mp hname).symm.trans (List.mem_singleton.mp hname')
        exact hne (str_injective (List.append_cancel_left heq))
  rw [hnames, List.cons_append]
  refine List.nodup_cons.mpr ⟨fun h => ?_, List.Nodup.append hcounts (List.nodup_singleton _) ?_⟩
  · rcases List.mem_append.mp h with h | h
    · obtain ⟨k, -, h⟩ := List.mem_flatMap.mp h
      simp at h
    · exact absurd (List.mem_singleton.mp h) (by decide)
  · intro name hname hbig
    obtain rfl := List.mem_singleton.mp hbig
    obtain ⟨k, -, hname⟩ := List.mem_flatMap.mp hname
    rcases List.mem_cons.mp hname with hname | hname
    · exact hlittle hname.symm
    · exact hboth (List.mem_singleton.mp hname).symm

theorem slash_notMem_conditions (b : Bench) : ∀ cond ∈ e2Conditions b, '/' ∉ cond.1 := by
  have hstr : ∀ k, '/' ∉ str k := fun k => notMem_str (by decide)
  intro cond hcond
  rcases List.mem_append.mp hcond with hcond | hcond
  · rcases List.mem_cons.mp hcond with rfl | hcond
    · simp
    obtain ⟨k, -, hcond⟩ := List.mem_flatMap.mp hcond
    rcases List.mem_cons.mp hcond with rfl | hcond
    · simp [hstr]
    · rw [List.mem_singleton.mp hcond]
      simp [hstr]
  · rw [List.mem_singleton.mp hcond]
    simp

theorem e2Coupling_phase (b : Bench) (n : Nat) : Phase "e2-coupling".toList
    (2 * (e2Conditions b).length * n) (fixedJobs (some (e2Coupling b)) n) := by
  have hnames : (e2Coupling b).map (·.name) =
      ((e2Conditions b).map (·.1)).map ("partitioned".toList ++ '.' :: ·) ++
        ((e2Conditions b).map (·.1)).map ("flat".toList ++ '.' :: ·) := by
    unfold e2Coupling
    simp only [List.flatMap_cons, List.flatMap_nil, List.append_nil, List.map_append, List.map_map]
    rfl
  have hnodup : ((e2Coupling b).map (·.name)).Nodup := by
    have hinj : ∀ epp : Text, Function.Injective fun name : Text => epp ++ '.' :: name :=
      fun epp name name' h => (List.cons.inj (List.append_cancel_left h)).2
    rw [hnames]
    refine List.Nodup.append ((e2Conditions_nodup b).map (hinj _))
      ((e2Conditions_nodup b).map (hinj _)) ?_
    intro name hname hname'
    obtain ⟨cond, -, rfl⟩ := List.mem_map.mp hname
    obtain ⟨cond', -, heq⟩ := List.mem_map.mp hname'
    exact absurd (List.cons.inj heq).1 (by decide)
  have hlength : (e2Coupling b).length = 2 * (e2Conditions b).length := by
    have h := congrArg List.length hnames
    simp only [List.length_map, List.length_append] at h
    omega
  have hmem : ∀ arm ∈ e2Coupling b, arm.experiment = "e2-coupling".toList ∧ '/' ∉ arm.name := by
    intro arm harm
    obtain ⟨epp, hepp, harm⟩ := List.mem_flatMap.mp harm
    obtain ⟨cond, hcond, rfl⟩ := List.mem_map.mp harm
    have hslash := slash_notMem_conditions b cond hcond
    have heppName : '/' ∉ epp.toList := by
      rcases List.mem_cons.mp hepp with rfl | hepp
      · simp
      · rw [List.mem_singleton.mp hepp]
        simp
    exact ⟨rfl, by simp [heppName, hslash]⟩
  rw [← hlength]
  exact fixedJobs_phase (fun arm harm => (hmem arm harm).1) hnodup
    (fun arm harm => (hmem arm harm).2) n

end Conditions

/-! ## The whole session -/

section Whole

variable {b : Bench}

/-- The arms of an experiment with one load. -/
theorem named_phase (experiment : Text) (names : List String) (load : Option (List Nat × Text))
    (hnodup : names.Nodup) (hplain : ∀ name ∈ names, '/' ∉ name.toList) (n : Nat) :
    Phase experiment (names.length * n)
      (fixedJobs (some (names.map fun name => ⟨experiment, name.toList, load⟩)) n) := by
  have hnames :
      ((names.map fun name => Arm.mk experiment name.toList load).map (·.name)).Nodup := by
    rw [List.map_map]
    exact hnodup.map fun name name' h => String.toList_injective h
  rw [← List.length_map (fun name => Arm.mk experiment name.toList load)]
  refine fixedJobs_phase ?_ hnames ?_ n
  · simp
  · simpa using hplain

theorem e1Rail_phase (hb : Split b) (n : Nat) :
    Phase "e1-rail".toList (4 * n) (fixedJobs (e1Rail b) n) := by
  obtain ⟨big, bigs, hbig⟩ := List.exists_cons_of_ne_nil hb.big_ne
  obtain ⟨little, littles, hlittle⟩ := List.exists_cons_of_ne_nil hb.little_ne
  unfold e1Rail
  rw [hbig, hlittle]
  exact named_phase _ ["both-performance", "both-power", "both-balance", "partitioned"] _
    (by simp) (by simp) n

theorem e1bPoison_phase (hb : Split b) (n : Nat) :
    Phase "e1b-poison".toList (4 * n) (fixedJobs (e1bPoison b) n) := by
  obtain ⟨little, littles, hlittle⟩ := List.exists_cons_of_ne_nil hb.little_ne
  unfold e1bPoison
  rw [hlittle]
  exact named_phase _
    ["others-power", "others-balance", "others-performance", "others-balance-power"] _
    (by simp) (by simp) n

variable {e e' : Text} {n n' : Nat} {l l' : List (Option Job)}

theorem Phase.disjoint (h : Phase e n l) (h' : Phase e' n' l') (hne : e ≠ e') : l.Disjoint l' := by
  intro j hj hj'
  obtain ⟨job, rfl, hexperiment, -⟩ := h.plain j hj
  obtain ⟨job', heq, hexperiment', -⟩ := h'.plain _ hj'
  obtain rfl := Option.some.inj heq
  exact hne (hexperiment.symm.trans hexperiment')

/-- An experiment that is not selected has no runs. -/
theorem Phase.selected (h : Phase e n l) (p : Bool) :
    Phase e (if p then n else 0) (if p then l else []) := by
  cases p with
  | true => exact h
  | false => exact ⟨rfl, List.nodup_nil, by simp⟩

/-- The runs of a session: as many as planned, and no run twice. -/
theorem jobs_planned (hb : Split b) (rng : Analyze.Random ℚ) (args : Args) :
    (jobs rng args b).length = totalRuns args b ∧ (jobs rng args b).Nodup ∧
      ∀ j ∈ jobs rng args b, ∃ job, j = some job ∧ Plain job := by
  have h1 := (e1Rail_phase hb args.reps).selected (args.experiment.has .e1Rail)
  have h2 := (e1bPoison_phase hb args.reps).selected (args.experiment.has .e1bPoison)
  have h3 := (e2Coupling_phase b args.reps).selected (args.experiment.has .e2Coupling)
  have h4 := (e3Jobs_phase rng args.reps (rng.seed args.seed)).selected
    (args.experiment.has .e3Ab)
  refine ⟨?_, ?_, ?_⟩
  · have hsum : ∀ (p : Bool) (q : Planned),
        ((if p then [q] else []).map fun p => p.nrArms * args.reps).sum =
          if p then q.nrArms * args.reps else 0 := by
      intro p q
      cases p <;> simp
    unfold jobs totalRuns plan
    simp only [List.length_append, List.map_append, List.sum_append, hsum]
    rw [h1.length, h2.length, h3.length, h4.length]
  · unfold jobs
    refine List.Nodup.append
      (List.Nodup.append (List.Nodup.append h1.nodup h2.nodup ?_) h3.nodup ?_) h4.nodup ?_
    · exact h1.disjoint h2 (by simp)
    · rw [List.disjoint_append_left]
      exact ⟨h1.disjoint h3 (by simp), h2.disjoint h3 (by simp)⟩
    · rw [List.disjoint_append_left, List.disjoint_append_left]
      exact ⟨⟨h1.disjoint h4 (by simp), h2.disjoint h4 (by simp)⟩, h3.disjoint h4 (by simp)⟩
  · have hplain : ∀ {e n l}, Phase e n l → e ≠ [] → '/' ∉ e →
        ∀ j ∈ l, ∃ job, j = some job ∧ Plain job := by
      intro e n l h hne hslash j hj
      obtain ⟨job, rfl, rfl, harm⟩ := h.plain j hj
      exact ⟨job, rfl, hne, hslash, harm⟩
    intro j hj
    unfold jobs at hj
    simp only [List.mem_append] at hj
    rcases hj with ((hj | hj) | hj) | hj
    · exact hplain h1 (by simp) (by simp) j hj
    · exact hplain h2 (by simp) (by simp) j hj
    · exact hplain h3 (by simp) (by simp) j hj
    · exact hplain h4 (by simp) (by simp) j hj

/-- Two files are alike only if the runs and the extensions are. -/
theorem files_nodup (raw : Text) {jobs : List Job} (hnodup : jobs.Nodup)
    (hplain : ∀ job ∈ jobs, Plain job) :
    (jobs.map (recordPath raw)).Nodup ∧
      (jobs.flatMap fun job => [csvPath raw job, recordPath raw job]).Nodup := by
  have hcsv : '.' ∉ "csv".toList ∧ '/' ∉ "csv".toList := by simp
  have hjson : '.' ∉ "json".toList ∧ '/' ∉ "json".toList := by simp
  have hne : "csv".toList ≠ "json".toList := by simp
  constructor
  · exact List.Nodup.map_on (fun job hjob job' hjob' h =>
      (runPath_injective hjson hjson (hplain job hjob) (hplain job' hjob') h).1) hnodup
  · refine List.nodup_flatMap.mpr ⟨fun job hjob => ?_, ?_⟩
    · refine List.nodup_cons.mpr ⟨fun h => ?_, List.nodup_singleton _⟩
      have hjob := hplain job hjob
      exact hne (runPath_injective hcsv hjson hjob hjob (List.mem_singleton.mp h)).2
    · refine List.Pairwise.imp_of_mem (fun {job job'} hjob hjob' hdiffer => ?_) hnodup
      have hinjective : ∀ {ext ext' : Text}, '.' ∉ ext ∧ '/' ∉ ext → '.' ∉ ext' ∧ '/' ∉ ext' →
          runPath raw ext job ≠ runPath raw ext' job' := fun hext hext' h =>
        hdiffer (runPath_injective hext hext' (hplain job hjob) (hplain job' hjob') h).1
      simpa [List.disjoint_left] using ⟨⟨hinjective hcsv hcsv, hinjective hcsv hjson⟩,
        hinjective hjson hcsv, hinjective hjson hjson⟩

/-- **The plan matches the session.** A session that measures to its end writes as many records
as planned, and no file of one run is a file of another. Every condition of `e2` that loads CPUs
loads those that its name states. -/
theorem session_matches_plan (b : Bench) (hb : Split b) :
    (∀ (rng : Analyze.Random ℚ) (w : Surroundings) (args : Args) (raw : Text),
      args.planOnly = false → (go rng w args b).returned = some 0 →
        (go rng w args b).records.length =
            ((plan args b).map fun p => p.nrArms * args.reps).sum ∧
          ((go rng w args b).records.map fun r => recordPath raw r.1).Nodup ∧
          ((go rng w args b).records.flatMap fun r =>
            [csvPath raw r.1, recordPath raw r.1]).Nodup) ∧
      ∀ cond ∈ e2Conditions b, cond.1 ≠ "idle".toList →
        ∃ cpus, cond.2 = some cpus ∧ Loads b cond.1 cpus := by
  refine ⟨fun rng w args raw hplan hreturned => ?_, e2Conditions_loads hb⟩
  have hall := go_all hplan hreturned
  obtain ⟨hlength, hnodup, hplain⟩ := jobs_planned hb rng args
  rw [← hall] at hlength hnodup hplain
  have hruns : ((go rng w args b).records.map (·.1)).Nodup := by
    refine List.Nodup.of_map some ?_
    rwa [List.map_map]
  have hnames : ∀ r ∈ (go rng w args b).records, Plain r.1 := by
    intro r hr
    obtain ⟨job, heq, hjob⟩ := hplain _ (List.mem_map_of_mem hr)
    exact Option.some.inj heq ▸ hjob
  obtain ⟨hrecords, hfiles⟩ := files_nodup raw hruns (List.forall_mem_map.mpr hnames)
  rw [List.map_map] at hrecords
  rw [List.flatMap_map] at hfiles
  exact ⟨(List.length_map _).symm.trans hlength, hrecords, hfiles⟩

/-- A session with one repetition on two big and three little CPUs. -/
theorem session_matches_plan_five :
    (go Analyze.quarters ⟨[], true, true, fun _ => .ended true, true⟩ ⟨.all, 1, 20, 1, false⟩
      ⟨[0, 1], [2, 3, 4]⟩).records.length = 29 :=
  ((session_matches_plan ⟨[0, 1], [2, 3, 4]⟩
    ⟨by simp, by simp, by simp, by simp, by simp [List.Disjoint]⟩).1 Analyze.quarters
      ⟨[], true, true, fun _ => .ended true, true⟩ ⟨.all, 1, 20, 1, false⟩ "raw".toList rfl
      (by decide)).1.trans (by decide)

end Whole

end Bench

end FakeBigLittle
