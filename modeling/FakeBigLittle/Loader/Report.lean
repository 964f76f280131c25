import FakeBigLittle.Analyze.CrossShare
import FakeBigLittle.Bench.FixedLoad
import FakeBigLittle.Bench.Records
import FakeBigLittle.Loader.Proofs
import FakeBigLittle.Runs

/-!
# What bls prints

The lines of `report_partition` and `print_stats_json`, and what the harness has of them when
`main` is over.
-/

namespace FakeBigLittle

open CString Runs
open Json (Value Reads Named IsObject object array quoted)

/-! ## The lines -/

/-- A record of `main` with what `printf` is given for it. -/
inductive Printed where
  | partition (rows : List Row)
  | attached
  | stats (elapsed : ℚ) (s : Stat → UInt64)

def Printed.kind : Printed → Record
  | .partition rows => .partition rows
  | .attached => .attached
  | .stats _ _ => .stats

def domName (d : Dom) : Text := if d = .little then "little".toList else "big".toList

-- `"null"`, or `%u`
def msrText (v : Option UInt8) : Text :=
  match v with
  | none => "null".toList
  | some v => Printf.nat v.toNat

def rowFields (r : Row) : List (Text × Text) :=
  [("cpu".toList, Printf.nat r.cpu), ("core".toList, Printf.int r.core),
    ("domain".toList, quoted (domName r.domain)), ("epp".toList, quoted r.epp),
    ("epp_msr_before".toList, msrText r.eppMsrBefore),
    ("epp_msr_after".toList, msrText r.eppMsrAfter)]

-- `print_stats_json`, without the end of the line
def statsFields (elapsed : ℚ) (s : Stat → UInt64) : List (Text × Text) :=
  ("event".toList, quoted "stats".toList) :: ("elapsed_s".toList, Decimal.fixed 3 elapsed) ::
    blsStats.map fun i => (i.name, Printf.nat (s i).toNat)

-- `report_partition`, without the end of the line
def partitionFields (rows : List Row) : List (Text × Text) :=
  [("event".toList, quoted "partition".toList),
    ("cpus".toList, array (rows.map fun r => object (rowFields r)))]

def Printed.fields : Printed → List (Text × Text)
  | .partition rows => partitionFields rows
  | .attached => [("event".toList, quoted "attached".toList)]
  | .stats elapsed s => statsFields elapsed s

def Printed.line (p : Printed) : Text := object p.fields ++ ['\n']

/-- Everything that `main` has written to its pipe. -/
def stdout (ps : List Printed) : Text := ps.flatMap Printed.line

/-! ## What they mean -/

def msrValue (v : Option UInt8) : Value :=
  match v with
  | none => .null
  | some v => .num (Printf.nat v.toNat)

def rowValue (r : Row) : Value :=
  .obj [("cpu".toList, .num (Printf.nat r.cpu)), ("core".toList, .num (Printf.int r.core)),
    ("domain".toList, .str (domName r.domain)), ("epp".toList, .str r.epp),
    ("epp_msr_before".toList, msrValue r.eppMsrBefore),
    ("epp_msr_after".toList, msrValue r.eppMsrAfter)]

def statsValue (elapsed : ℚ) (s : Stat → UInt64) : Value :=
  .obj (("event".toList, .str "stats".toList) ::
    ("elapsed_s".toList, .num (Decimal.fixed 3 elapsed)) ::
    blsStats.map fun i => (i.name, .num (Printf.nat (s i).toNat)))

def partitionValue (rows : List Row) : Value :=
  .obj [("event".toList, .str "partition".toList), ("cpus".toList, .arr (rows.map rowValue))]

def Printed.value : Printed → Value
  | .partition rows => partitionValue rows
  | .attached => .obj [("event".toList, .str "attached".toList)]
  | .stats elapsed s => statsValue elapsed s

/-- The name of an EPP setting stands between quotation marks as it is. -/
def Unescaped (t : Text) : Prop := t.all Json.plain = true ∧ t.all Printf.printable = true

/-- Every line is sound but for the names of the EPP settings. -/
def Printed.Sound : Printed → Prop
  | .partition rows => ∀ r ∈ rows, Unescaped r.epp
  | _ => True

/-! ## A line is read -/

theorem unescaped_slot {t : Text} (h : Unescaped t) : Printf.Slot (quoted t) :=
  Printf.slot_quoted h.1 h.2

/-- The members of an object, each with its text and its value. -/
structure Member (p : Text × Text × Value) : Prop where
  key : Printf.isKey p.1 = true
  reads : Reads p.2.1 p.2.2
  slot : Printf.Slot p.2.1

theorem member_quoted {k t : Text} (hk : Printf.isKey k = true) (h : Unescaped t) :
    Member (k, quoted t, .str t) := ⟨hk, Json.reads_quoted h.1, unescaped_slot h⟩

theorem member_nat {k : Text} (hk : Printf.isKey k = true) (n : Nat) :
    Member (k, Printf.nat n, .num (Printf.nat n)) :=
  ⟨hk, Printf.num_nat n, Printf.slot_nat n⟩

theorem member_msr {k : Text} (hk : Printf.isKey k = true) (v : Option UInt8) :
    Member (k, msrText v, msrValue v) := by
  cases v with
  | none => exact ⟨hk, Json.reads_null, Printf.slot_null⟩
  | some v => exact member_nat hk v.toNat

/-- What an object is read as. -/
structure Line (t : Text) (v : Value) : Prop where
  reads : Reads t v
  loads : Json.loads t = some v
  printable : t.all Printf.printable = true

/-- An object is read as its members say. -/
theorem line_members {l : List (Text × Text × Value)} (h : ∀ p ∈ l, Member p) :
    Line (object (Json.written l)) (.obj (Json.meant l)) := by
  have hnamed : ∀ p ∈ l, Named p.1 := fun p hp => Printf.isKey_named (h p hp).key
  have hreads : ∀ p ∈ l, Reads p.2.1 p.2.2 := fun p hp => (h p hp).reads
  refine ⟨Json.reads_object hnamed hreads, Json.loads_object hnamed hreads,
    Bench.object_printable ?_ ?_⟩
  · intro f hf
    obtain ⟨p, hp, rfl⟩ := List.mem_map.mp hf
    exact (h p hp).key
  · intro f hf
    obtain ⟨p, hp, rfl⟩ := List.mem_map.mp hf
    exact (h p hp).slot

theorem unescaped_domName (d : Dom) : Unescaped (domName d) := by
  cases d <;> exact ⟨rfl, rfl⟩

theorem line_row {r : Row} (h : Unescaped r.epp) :
    Line (object (rowFields r)) (rowValue r) := by
  have hmembers := @line_members
    [("cpu".toList, Printf.nat r.cpu, .num (Printf.nat r.cpu)),
      ("core".toList, Printf.int r.core, .num (Printf.int r.core)),
      ("domain".toList, quoted (domName r.domain), .str (domName r.domain)),
      ("epp".toList, quoted r.epp, .str r.epp),
      ("epp_msr_before".toList, msrText r.eppMsrBefore, msrValue r.eppMsrBefore),
      ("epp_msr_after".toList, msrText r.eppMsrAfter, msrValue r.eppMsrAfter)]
  apply hmembers
  simp only [List.forall_mem_cons]
  exact ⟨member_nat rfl _, ⟨rfl, Printf.num_int _, Printf.slot_int _⟩,
    member_quoted rfl (unescaped_domName _), member_quoted rfl h, member_msr rfl _,
    member_msr rfl _, List.forall_mem_nil _⟩

theorem isKey_name (i : Stat) : Printf.isKey i.name = true := by
  cases i <;> rfl

theorem line_stats (elapsed : ℚ) (s : Stat → UInt64) :
    Line (object (statsFields elapsed s)) (statsValue elapsed s) := by
  have hmembers := @line_members
    (("event".toList, quoted "stats".toList, .str "stats".toList) ::
      ("elapsed_s".toList, Decimal.fixed 3 elapsed, .num (Decimal.fixed 3 elapsed)) ::
      blsStats.map fun i => (i.name, Printf.nat (s i).toNat, .num (Printf.nat (s i).toNat)))
  apply hmembers
  refine List.forall_mem_cons.mpr ⟨member_quoted rfl ⟨rfl, rfl⟩, List.forall_mem_cons.mpr
    ⟨⟨rfl, Printf.num_decimal 3 elapsed, Printf.slot_decimal 3 elapsed⟩, ?_⟩⟩
  intro p hp
  obtain ⟨i, -, rfl⟩ := List.mem_map.mp hp
  exact member_nat (isKey_name i) _

theorem line_partition {rows : List Row} (h : ∀ r ∈ rows, Unescaped r.epp) :
    Line (object (partitionFields rows)) (partitionValue rows) := by
  have harray : Reads (array (rows.map fun r => object (rowFields r))) (.arr (rows.map rowValue)) :=
    Json.reads_array_map fun r hr => (line_row (h r hr)).reads
  have hslot : Printf.Slot (array (rows.map fun r => object (rowFields r))) := by
    apply Printf.slot_array
    intro t ht
    obtain ⟨r, hr, rfl⟩ := List.mem_map.mp ht
    exact ⟨Or.inl ⟨_, (line_row (h r hr)).reads⟩, (line_row (h r hr)).printable⟩
  have hmembers := @line_members
    [("event".toList, quoted "partition".toList, .str "partition".toList),
      ("cpus".toList, array (rows.map fun r => object (rowFields r)), .arr (rows.map rowValue))]
  apply hmembers
  simp only [List.forall_mem_cons]
  exact ⟨member_quoted rfl ⟨rfl, rfl⟩, ⟨rfl, harray, hslot⟩, List.forall_mem_nil _⟩

theorem line_printed {p : Printed} (h : p.Sound) : Line (object p.fields) p.value := by
  cases p with
  | partition rows => exact line_partition h
  | attached =>
    have hmembers := @line_members
      [("event".toList, quoted "attached".toList, .str "attached".toList)]
    apply hmembers
    simp only [List.forall_mem_cons]
    exact ⟨member_quoted rfl ⟨rfl, rfl⟩, List.forall_mem_nil _⟩
  | stats elapsed s => exact line_stats elapsed s

/-! ## What the harness collects -/

/-- An object that stands on a line of its own is collected. -/
theorem collectJson_line {fields : List (Text × Text)} {v : Value} (hne : fields ≠ [])
    (h : Line (object fields) v) (u : Text) :
    Bench.collectJson (object fields ++ '\n' :: u) = v :: Bench.collectJson u := by
  obtain ⟨f, fields, rfl⟩ := List.exists_cons_of_ne_nil hne
  have hbraces : object (f :: fields) = '{' :: ((Json.field f ++
      fields.flatMap fun f => ',' :: Json.field f) ++ ['}']) := by
    simp [object, Json.members]
  have hbreak : ∀ c ∈ object (f :: fields), Bench.isBreak c = false := fun c hc =>
    Bench.isBreak_printable (List.all_eq_true.mp h.printable c hc)
  have hline : Bench.readLine (object (f :: fields)) = some v := by
    rw [hbraces, Bench.readLine_braces, ← hbraces, h.loads]
  rw [Bench.collectJson_cons hbreak (by simp [hbraces]), hline]
  rfl

/-- **Every line of bls is collected as what it says.** -/
theorem collectJson_stdout {ps : List Printed} (h : ∀ p ∈ ps, p.Sound) (u : Text) :
    Bench.collectJson (stdout ps ++ u) = ps.map Printed.value ++ Bench.collectJson u := by
  induction ps with
  | nil => rfl
  | cons p ps ih =>
    obtain ⟨hp, hrest⟩ := List.forall_mem_cons.mp h
    have hcons : stdout (p :: ps) ++ u = object p.fields ++ '\n' :: (stdout ps ++ u) := by
      simp [stdout, Printed.line]
    have hne : p.fields ≠ [] := by
      cases p <;> simp [Printed.fields, partitionFields, statsFields]
    rw [hcons, collectJson_line hne (line_printed hp), ih hrest, List.map_cons, List.cons_append]

/-! ## The slots -/

/-- The last of the records that `f` takes. -/
def lastOf (f : Printed → Option Value) (ps : List Printed) : Option Value :=
  (ps.filterMap f).getLast?

def statsOf : Printed → Option Value
  | .stats elapsed s => some (statsValue elapsed s)
  | _ => none

def partitionOf : Printed → Option Value
  | .partition rows => some (partitionValue rows)
  | _ => none

theorem slot_value (slots : Bench.ToolSlots) (p : Printed) :
    Bench.slot slots p.value =
      { slots with
        bls := (statsOf p).or slots.bls
        partition := (partitionOf p).or slots.partition } := by
  cases p <;> rfl

theorem getLast?_filterMap_cons (f : Printed → Option Value) (p : Printed) (ps : List Printed) :
    lastOf f (p :: ps) = (lastOf f ps).or (f p) := by
  unfold lastOf
  cases hp : f p with
  | none => simp [hp]
  | some v => simp [hp, List.getLast?_cons]

theorem foldl_slot (ps : List Printed) (slots : Bench.ToolSlots) :
    (ps.map Printed.value).foldl Bench.slot slots =
      { slots with
        bls := (lastOf statsOf ps).or slots.bls
        partition := (lastOf partitionOf ps).or slots.partition } := by
  induction ps generalizing slots with
  | nil => rfl
  | cons p ps ih =>
    rw [List.map_cons, List.foldl_cons, slot_value, ih, getLast?_filterMap_cons,
      getLast?_filterMap_cons]
    simp only [Option.or_assoc]

/-! ## What a run of `main` prints -/

section Output

variable {o : Options} {n : Nat} {s t : Loader} {e : LoaderEvent}

/-- The partition, and nothing else. -/
def Reported (o : Options) (n : Nat) (s : Loader) : Prop :=
  s.out = [.partition ((List.range n).map (row o s.cpus))]

/-- The partition, the link, and `k` times the counters. -/
def Counted (o : Options) (n k : Nat) (s : Loader) : Prop :=
  s.out = .partition ((List.range n).map (row o s.cpus)) :: .attached :: List.replicate k .stats

/-- Where `main` has printed nothing yet. -/
def Pc.isSilent : Pc → Bool
  | .resolve | .saveEpp _ | .applyEpp _ | .report => true
  | _ => false

/-- Where it has printed the partition. -/
def Pc.hasReported : Pc → Bool
  | .openSkel | .loadSkel | .bigRules | .littleRules | .signalInt | .signalTerm | .attach => true
  | _ => false

/-- Where it ends well. -/
def Pc.endsWell : Pc → Bool
  | .detach | .restoreEpp _ 0 | .exited 0 => true
  | _ => false

structure OutputInv (o : Options) (n : Nat) (s : Loader) : Prop where
  shape : s.out = [] ∨ Reported o n s ∨ ∃ k, Counted o n k s
  silent : s.pc.isSilent = true → s.out = []
  reported : s.pc.hasReported = true → Reported o n s
  counting : s.pc = .loop ∨ s.pc = .stats → ∃ k, Counted o n k s
  well : s.pc.endsWell = true → o.dryRun = false → ∃ k, Counted o n (k + 1) s

theorem counted_succ {k : Nat} (h : Counted o n k s) (hout : t.out = s.out ++ [.stats])
    (hcpus : t.cpus = s.cpus) : Counted o n (k + 1) t := by
  unfold Counted at h ⊢
  rw [hout, h, hcpus, List.replicate_succ']
  rfl

/-- A step that prints nothing, to a place where nothing more has been printed. -/
theorem OutputInv.quiet (h : OutputInv o n s) (hout : t.out = s.out) (hcpus : t.cpus = s.cpus)
    (hsilent : t.pc.isSilent = true → s.pc.isSilent = true)
    (hreported : t.pc.hasReported = true → s.pc.hasReported = true)
    (hcounting : t.pc = .loop ∨ t.pc = .stats → s.pc = .loop ∨ s.pc = .stats)
    (hwell : t.pc.endsWell = true → s.pc.endsWell = true) : OutputInv o n t := by
  have hrep : Reported o n t ↔ Reported o n s := by
    unfold Reported
    rw [hout, hcpus]
  have hcount : ∀ k, Counted o n k t ↔ Counted o n k s := by
    intro k
    unfold Counted
    rw [hout, hcpus]
  constructor
  · rw [hout, hrep]
    simpa only [hcount] using h.shape
  · exact fun hpc => hout.trans (h.silent (hsilent hpc))
  · exact fun hpc => hrep.mpr (h.reported (hreported hpc))
  · exact fun hpc => (h.counting (hcounting hpc)).imp fun k => (hcount k).mpr
  · exact fun hpc hdry => (h.well (hwell hpc) hdry).imp fun k => (hcount (k + 1)).mpr

/-- Before the report the CPU table may still change. -/
theorem OutputInv.early (h : OutputInv o n s) (hpc : s.pc.isSilent = true) (hout : t.out = s.out)
    (hreported : t.pc.hasReported = false) (hcounting : t.pc ≠ .loop ∧ t.pc ≠ .stats)
    (hwell : t.pc.endsWell = false) : OutputInv o n t := by
  have hnone := hout.trans (h.silent hpc)
  refine ⟨Or.inl hnone, fun _ => hnone, fun hp => ?_, fun hp => ?_, fun hp => ?_⟩
  · exact absurd (hreported.symm.trans hp) (by simp)
  · exact absurd hp (by simp [hcounting])
  · exact absurd (hwell.symm.trans hp) (by simp)

theorem OutputInv.die (h : OutputInv o n s) : OutputInv o n s.die :=
  h.quiet rfl rfl (by simp [Loader.die, Pc.isSilent]) (by simp [Loader.die, Pc.hasReported])
    (by simp [Loader.die]) (by simp [Loader.die, Pc.endsWell])

theorem output_rules (h : OutputInv o n s) {list : Option Text} {d : Dom} {next : Pc}
    (hpc : s.pc.hasReported = true) (hnext : next.hasReported = true)
    (hstep : rulesStep s list d next e = some t) : OutputInv o n t := by
  obtain ⟨-, rules, slot, -, rfl⟩ | ⟨-, -, rfl⟩ | ⟨-, -, rfl⟩ := rulesStep_cases hstep
  · have hother : next.isSilent = false ∧ next ≠ .loop ∧ next ≠ .stats ∧
        next.endsWell = false := by
      revert hnext
      cases next <;> simp [Pc.hasReported, Pc.isSilent, Pc.endsWell]
    exact h.quiet rfl rfl (by simp [hother]) (fun _ => hpc) (by simp [hother]) (by simp [hother])
  · exact h.die
  · exact h.die

theorem output_bpf (h : OutputInv o n s) (hmove : BpfMove o n s e t) : OutputInv o n t := by
  cases hmove with
  | dryRun hpc hdry =>
    have hout := h.silent (by rw [hpc]; rfl)
    have hreported : s.out ++ [Record.partition ((List.range n).map (row o s.cpus))] =
        [Record.partition ((List.range n).map (row o s.cpus))] := by
      rw [hout]
      rfl
    refine ⟨Or.inr (Or.inl hreported), fun hp => ?_, fun _ => hreported, fun hp => ?_,
      fun _ hno => ?_⟩
    · simp only at hp
      split_ifs at hp <;> simp [Pc.isSilent] at hp
    · simp only at hp
      split_ifs at hp <;> simp at hp
    · rw [hdry] at hno
      exact Bool.noConfusion hno
  | report hpc hdry =>
    have hout := h.silent (by rw [hpc]; rfl)
    have hreported : s.out ++ [Record.partition ((List.range n).map (row o s.cpus))] =
        [Record.partition ((List.range n).map (row o s.cpus))] := by
      rw [hout]
      rfl
    exact ⟨Or.inr (Or.inl hreported), by simp [Pc.isSilent], fun _ => hreported, by simp,
      by simp [Pc.endsWell]⟩
  | opened hpc =>
    exact h.quiet rfl rfl (by simp [Pc.isSilent]) (by simp [hpc, Pc.hasReported]) (by simp)
      (by simp [Pc.endsWell])
  | loaded hpc =>
    exact h.quiet rfl rfl (by simp [Pc.isSilent]) (by simp [hpc, Pc.hasReported]) (by simp)
      (by simp [Pc.endsWell])
  | fails hpc =>
    exact h.quiet rfl rfl (by simp [Pc.isSilent]) (by simp [Pc.hasReported]) (by simp)
      (by simp [Pc.endsWell])
  | bigRules hpc hrules => exact output_rules h (by rw [hpc]; rfl) rfl hrules
  | littleRules hpc hrules => exact output_rules h (by rw [hpc]; rfl) rfl hrules
  | handlesInt hpc =>
    exact h.quiet rfl rfl (by simp [Pc.isSilent]) (by simp [hpc, Pc.hasReported]) (by simp)
      (by simp [Pc.endsWell])
  | handlesTerm hpc =>
    exact h.quiet rfl rfl (by simp [Pc.isSilent]) (by simp [hpc, Pc.hasReported]) (by simp)
      (by simp [Pc.endsWell])
  | attached hpc =>
    have hout := h.reported (by rw [hpc]; rfl)
    unfold Reported at hout
    have hcounted : s.out ++ [Record.attached] =
        .partition ((List.range n).map (row o s.cpus)) :: .attached :: List.replicate 0 .stats := by
      rw [hout]
      rfl
    exact ⟨Or.inr (Or.inr ⟨0, hcounted⟩), by simp [Pc.isSilent], by simp [Pc.hasReported],
      fun _ => ⟨0, hcounted⟩, by simp [Pc.endsWell]⟩
  | polled hpc hpoll =>
    obtain ⟨k, hk⟩ := h.counting (Or.inl hpc)
    obtain ⟨-, -, -, -, ⟨-, rfl⟩ | ⟨-, ⟨-, -, rfl⟩ | ⟨-, -, rfl⟩ | ⟨-, rfl⟩⟩⟩ :=
      pollStep_cases hpoll
    · exact h.quiet rfl rfl (by simp [Pc.isSilent]) (by simp [Pc.hasReported])
        (fun _ => Or.inl hpc) (by simp [Pc.endsWell])
    · have hmore : Counted o n (k + 1) { s with out := s.out ++ [.stats] } :=
        counted_succ hk rfl rfl
      exact ⟨Or.inr (Or.inr ⟨_, hmore⟩), by simp [hpc, Pc.isSilent], by simp [hpc, Pc.hasReported],
        fun _ => ⟨_, hmore⟩, by simp [hpc, Pc.endsWell]⟩
    · exact h.die
    · exact h
  | stats hpc =>
    obtain ⟨k, hk⟩ := h.counting (Or.inr hpc)
    have hmore : Counted o n (k + 1) { s with pc := .detach, out := s.out ++ [.stats] } :=
      counted_succ hk rfl rfl
    exact ⟨Or.inr (Or.inr ⟨_, hmore⟩), by simp [Pc.isSilent], by simp [Pc.hasReported], by simp,
      fun _ _ => ⟨k, hmore⟩⟩
  | statsFail hpc => exact h.die
  | detached hpc =>
    refine h.quiet rfl rfl (fun hp => ?_) (fun hp => ?_) (fun hp => ?_) fun _ => by rw [hpc]; rfl
    · simp only at hp
      split_ifs at hp <;> simp [Pc.isSilent] at hp
    · simp only at hp
      split_ifs at hp <;> simp [Pc.hasReported] at hp
    · simp only at hp
      split_ifs at hp <;> simp at hp

theorem output_step (h : OutputInv o n s) (hstep : mainStep o n s e = some t) :
    OutputInv o n t := by
  cases mainStep_move hstep with
  | signal sig _ =>
    unfold signalStep
    split_ifs
    · exact h.quiet rfl rfl id id id id
    · exact h.quiet rfl rfl (by simp [Pc.isSilent]) (by simp [Pc.hasReported]) (by simp)
        (by simp [Pc.endsWell])
  | resolve hpc hl =>
    have hsilent : s.pc.isSilent = true := by rw [hpc]; rfl
    obtain ⟨-, -, ⟨-, -, rfl⟩ | ⟨mode, cpus, -, rfl⟩⟩ := resolveStep_cases hl
    · exact h.die
    · exact h.early hsilent rfl rfl (by simp) rfl
  | save cpu hpc hl =>
    have hsilent : s.pc.isSilent = true := by rw [hpc]; rfl
    obtain ⟨-, -, -, -, rfl⟩ | ⟨-, -, rfl⟩ := saveStep_cases hl
    · exact h.early hsilent rfl rfl (by simp) rfl
    · refine h.early hsilent rfl ?_ ?_ ?_ <;> split_ifs <;> simp [Pc.hasReported, Pc.endsWell]
  | apply cpu hpc hl =>
    have hsilent : s.pc.isSilent = true := by rw [hpc]; rfl
    obtain ⟨-, -, -, rfl⟩ | ⟨v, -, -, -, rfl⟩ | ⟨-, -, rfl⟩ := applyStep_cases hl
    · exact h.early hsilent rfl rfl (by simp [Loader.die]) rfl
    · exact h.early hsilent rfl rfl (by simp) rfl
    · exact h.early hsilent rfl rfl (by simp) rfl
  | restore cpu code hpc hl =>
    have hcode : ∀ c, (Pc.restoreEpp c code).endsWell = (Pc.exited code).endsWell := by
      intro c
      unfold Pc.endsWell
      rcases eq_or_ne code 0 with rfl | hne
      · rfl
      · split <;> split <;> simp_all
    obtain ⟨-, -, -, -, -, rfl⟩ | ⟨-, -, -, rfl⟩ | ⟨-, -, rfl⟩ := restoreStep_cases hl
    · exact h.quiet rfl rfl (by simp [Pc.isSilent]) (by simp [Pc.hasReported]) (by simp)
        (by simp [hpc, hcode])
    · exact h.quiet rfl rfl (by simp [Pc.isSilent]) (by simp [Pc.hasReported]) (by simp)
        (by simp [hpc, hcode])
    · exact h.quiet rfl rfl (by simp [Pc.isSilent]) (by simp [Pc.hasReported]) (by simp)
        (by simp [hpc, hcode])
  | bpf hmove => exact output_bpf h hmove

theorem output_run (hstart : s.Start) (hout : s.out = []) {es : List LoaderEvent}
    (hrun : run (mainStep o n) s es = some t) : OutputInv o n t := by
  refine inv_run (fun _ _ _ h hstep => output_step h hstep) es ?_ hrun
  have hpc := hstart.pc
  exact ⟨Or.inl hout, fun _ => hout, by simp [hpc, Pc.hasReported], by simp [hpc],
    by simp [hpc, Pc.endsWell]⟩

/-- The setting that a row names is one of the two options. -/
theorem row_sound (hbig : Unescaped o.eppBig) (hlittle : Unescaped o.eppLittle)
    (cpus : Nat → CpuState) (cpu : Nat) : Unescaped (row o cpus cpu).epp := by
  unfold row Options.want
  simp only
  split_ifs
  · exact hlittle
  · exact hbig

theorem printed_sound (hbig : Unescaped o.eppBig) (hlittle : Unescaped o.eppLittle)
    (h : OutputInv o n t) {ps : List Printed} (hps : ps.map Printed.kind = t.out) :
    ∀ p ∈ ps, p.Sound := by
  intro p hp
  cases p with
  | attached => trivial
  | stats elapsed s => trivial
  | partition rows =>
    have hmem : Record.partition rows ∈ t.out := by
      rw [← hps]
      exact List.mem_map_of_mem (f := Printed.kind) hp
    have hrows : rows = (List.range n).map (row o t.cpus) := by
      rcases h.shape with hnil | hone | ⟨k, hmany⟩
      · simp [hnil] at hmem
      · unfold Reported at hone
        simpa [hone] using hmem
      · unfold Counted at hmany
        simpa [hmany] using hmem
    intro r hr
    rw [hrows] at hr
    obtain ⟨cpu, -, rfl⟩ := List.mem_map.mp hr
    exact row_sound hbig hlittle t.cpus cpu

/-- A run that ends well without `--dry-run` has left the partition that was in force, and the
counters last. -/
theorem output_ends (h : OutputInv o n t) (hpc : t.pc = .exited 0) (hdry : o.dryRun = false)
    {ps : List Printed} (hps : ps.map Printed.kind = t.out) :
    ∃ elapsed counters, ps.getLast? = some (.stats elapsed counters) ∧
      lastOf statsOf ps = some (statsValue elapsed counters) ∧
      lastOf partitionOf ps = some (partitionValue ((List.range n).map (row o t.cpus))) := by
  obtain ⟨k, hk⟩ := h.well (by rw [hpc]; rfl) hdry
  unfold Counted at hk
  rw [hk, List.replicate_succ', ← List.cons_append, ← List.cons_append] at hps
  obtain ⟨front, last, rfl, hfront, hlast⟩ := List.map_eq_append_iff.mp hps
  obtain ⟨p, rest, rfl, hp, hrest⟩ := List.map_eq_cons_iff.mp hlast
  obtain rfl := List.map_eq_nil_iff.mp hrest
  obtain ⟨first, front, rfl, hfirst, hmiddle⟩ := List.map_eq_cons_iff.mp hfront
  obtain ⟨elapsed, counters, rfl⟩ : ∃ elapsed counters, p = .stats elapsed counters := by
    cases p with
    | stats elapsed counters => exact ⟨elapsed, counters, rfl⟩
    | _ => exact Record.noConfusion hp
  obtain ⟨rows, rfl⟩ : ∃ rows, first = .partition rows := by
    cases first with
    | partition rows => exact ⟨rows, rfl⟩
    | _ => exact Record.noConfusion hfirst
  obtain rfl : rows = (List.range n).map (row o t.cpus) := Record.partition.inj hfirst
  refine ⟨elapsed, counters, List.getLast?_concat, ?_, ?_⟩
  · have hstats : [Printed.stats elapsed counters].filterMap statsOf =
        [statsValue elapsed counters] := rfl
    unfold lastOf
    rw [List.filterMap_append, hstats, List.getLast?_concat]
  · -- No other record is a partition.
    have hnone : (front ++ [Printed.stats elapsed counters]).filterMap partitionOf = [] := by
      rw [List.filterMap_eq_nil_iff]
      intro q hq
      have hkind : q.kind ∈ Record.attached :: List.replicate k Record.stats ++ [.stats] := by
        rw [← hmiddle]
        rcases List.mem_append.mp hq with hq | hq
        · exact List.mem_append_left _ (List.mem_map_of_mem hq)
        · rw [List.mem_singleton.mp hq]
          exact List.mem_append_right _ List.mem_cons_self
      cases q with
      | partition rows => simp [Printed.kind] at hkind
      | _ => rfl
    have hpartition : partitionOf (.partition ((List.range n).map (row o t.cpus))) =
        some (partitionValue ((List.range n).map (row o t.cpus))) := rfl
    unfold lastOf
    rw [List.cons_append, List.filterMap_cons_some hpartition, hnone]
    rfl

/-- **The harness has of bls what bls printed.** Every line of every run is collected as the
record that it is, the slots hold the partition and the last counters, and a run that ends well
without `--dry-run` has left both, the partition being the one that was in force. -/
theorem bls_output_read (o : Options) (n : Nat) (s t : Loader) (es : List LoaderEvent)
    (hstart : s.Start) (hout : s.out = []) (hbig : Unescaped o.eppBig)
    (hlittle : Unescaped o.eppLittle) (hrun : run (mainStep o n) s es = some t)
    (ps : List Printed) (hps : ps.map Printed.kind = t.out) :
    Bench.collectJson (stdout ps) = ps.map Printed.value ∧
      Bench.classify (Bench.collectJson (stdout ps)) =
        { bls := lastOf statsOf ps, partition := lastOf partitionOf ps } ∧
      (t.pc = .exited 0 → o.dryRun = false → ∃ elapsed counters,
        ps.getLast? = some (.stats elapsed counters) ∧
        lastOf statsOf ps = some (statsValue elapsed counters) ∧
        lastOf partitionOf ps = some (partitionValue ((List.range n).map (row o t.cpus)))) := by
  have h := output_run hstart hout hrun
  have hcollect : Bench.collectJson (stdout ps) = ps.map Printed.value := by
    have hall := collectJson_stdout (printed_sound hbig hlittle h hps) []
    rw [List.append_nil, show Bench.collectJson [] = [] from rfl, List.append_nil] at hall
    exact hall
  refine ⟨hcollect, ?_, fun hpc hdry => output_ends h hpc hdry hps⟩
  rw [hcollect]
  unfold Bench.classify
  rw [foldl_slot]
  simp

end Output

/-- A run of bls as `e3` starts it, on one CPU, up to the signal that ends it. -/
theorem bls_output_read_one :
    ∃ t, run (mainStep { noEpp := true, persist := true } 1) loaderStart
        [.cores fun _ => 0, .read true (some 128), .ok, .ok, .ok, .ok, .ok, .ok, .ok, .ok, .ok,
          .signal .term, .poll false false true, .ok, .ok] = some t ∧
      (Bench.classify (Bench.collectJson (stdout
        [.partition [⟨0, 0, .little, "power".toList, some 128, some 0⟩], .attached,
          .stats (5 / 2) fun _ => 7]))).bls = some (statsValue (5 / 2) fun _ => 7) := by
  refine ⟨_, rfl, ?_⟩
  rw [(bls_output_read { noEpp := true, persist := true } 1 loaderStart _
    [.cores fun _ => 0, .read true (some 128), .ok, .ok, .ok, .ok, .ok, .ok, .ok, .ok, .ok,
      .signal .term, .poll false false true, .ok, .ok] loaderStart_start rfl ⟨rfl, rfl⟩ ⟨rfl, rfl⟩
    rfl [.partition [⟨0, 0, .little, "power".toList, some 128, some 0⟩], .attached,
      .stats (5 / 2) fun _ => 7] rfl).2.1]
  rfl

end FakeBigLittle
