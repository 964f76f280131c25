import FakeBigLittle.Bench.FixedLoad
import FakeBigLittle.Bench.Wire

/-!
# Loads that were not applied

The sampler returns 0 whatever its child did, and the experiments with a fixed load ask for no
more than that and its record.
-/

namespace FakeBigLittle

open CString Runs
open Json (Value)

namespace Bench

/-! ## What a record of `spin` says -/

def threadsOf (o : Value) : List Value :=
  match get "threads".toList o with
  | some (.arr ts) => ts
  | _ => []

/-- A thread that was bound to the CPU. -/
def RunsOn (o : Value) (cpu : Nat) : Prop :=
  ∃ t ∈ threadsOf o, get "cpu".toList t = some (.num (str cpu)) ∧
    get "affinity_ok".toList t = some (.bool true)

/-- The load of a record is the one that was asked for. -/
structure Applied (xs : List Nat) {name cpus : Text} (call : Call name cpus) (rec : Recorded) :
    Prop where
  exits : call.child.status (spinOptions name cpus) = some 0
  onAll : ∃ o, rec.slots.spin = some o ∧ ∀ x ∈ xs, RunsOn o x

def OkMeansApplied (xs : List Nat) {name cpus : Text} (call : Call name cpus) (rec : Recorded) :
    Prop :=
  rec.ok = true → Applied xs call rec

/-! ## When there is a record -/

section Calls

variable {name cpus : Text}

/-- The sampler finds its frequency and its domains, and its clock moves. -/
def Call.MeterWorks (call : Call name cpus) : Prop :=
  ∃ r, call.meter = .finished r ∧ r.m.tscMhz ≠ none ∧
    (∀ name ∈ Energy.domains, Energy.findDom r.rapl name ≠ none) ∧ 0 < r.ending.tEnd

/-- `spin` is killed with a part of its record written. -/
def Call.CutOff (call : Call name cpus) : Prop :=
  ∃ e written, call.child = .killed e written ∧ call.child.out (spinOptions name cpus) ≠ [] ∧
    call.child.out (spinOptions name cpus) ≠ (Spin.main (spinOptions name cpus) e).2

/-- `spin` reads its list, creates its threads, and each CPU has one that is bound to it. -/
def Call.Loads (xs : List Nat) (call : Call name cpus) : Prop :=
  ∃ e ids, call.child = .ended e ∧ Spin.parseCpus cpus = some ids ∧ ids ≠ [] ∧
    (∀ i < ids.length, e.creates i = true) ∧
    ∀ x ∈ xs, ∃ i, ids[i]? = some (x : Int) ∧ e.affinity i x = true

/-- What `spin` leaves in the pipe: nothing, its record, or the beginning of it. -/
inductive Left (call : Call name cpus) : Prop where
  | nothing (out : call.child.out (spinOptions name cpus) = [])
      (status : call.child.status (spinOptions name cpus) ≠ some 0)
  | whole (e : Spin.Env) (ids : List Int) (reads : Spin.parseCpus cpus = some ids) (ne : ids ≠ [])
      (creates : ∀ i < ids.length, e.creates i = true)
      (out : call.child.out (spinOptions name cpus) = record name
        (Spin.summaryFields (spinOptions name cpus) e (Spin.workers e ids)))
      (status : call.child = .ended e ∧ call.child.status (spinOptions name cpus) = some 0 ∨
        ∃ written, call.child = .killed e written) (notCut : ¬call.CutOff)
  | part (pre : Text) (out : call.child.out (spinOptions name cpus) = '{' :: pre)
      (noBreak : ∀ c ∈ '{' :: pre, isBreak c = false) (cut : call.CutOff)

theorem take_record {fields : List (Text × Text)} (hlabel : name.all Printf.printable = true)
    (hkeys : ∀ f ∈ fields, Printf.isKey f.1 = true) (hslots : ∀ f ∈ fields, Printf.Slot f.2)
    (n : Nat) :
    (record name fields).take n = [] ∨ (record name fields).take n = record name fields ∨
      ∃ pre, (record name fields).take n = '{' :: pre ∧
        ∀ c ∈ '{' :: pre, isBreak c = false := by
  obtain ⟨t, ht⟩ := recordLine_braces name fields
  rw [record_eq]
  rcases Nat.lt_or_ge (recordLine name fields).length n with hlong | hshort
  · right
    left
    apply List.take_of_length_le
    rw [List.length_append, List.length_singleton]
    omega
  · rw [List.take_append_of_le_length hshort]
    cases n with
    | zero => exact Or.inl rfl
    | succ n =>
      right
      right
      have hpart : (recordLine name fields).take (n + 1) =
          '{' :: ('"' :: 'l' :: (t ++ ['}'])).take n := by
        rw [ht, List.take_succ_cons]
      refine ⟨_, hpart, ?_⟩
      rw [← hpart]
      exact fun c hc => recordLine_noBreak hlabel hkeys hslots c (List.mem_of_mem_take hc)

theorem left (hlabel : name.all Printf.printable = true) (call : Call name cpus) : Left call := by
  have hmain := Spin.main_cases (spinOptions name cpus)
  cases hchild : call.child with
  | noExec =>
    exact .nothing (by rw [hchild]; rfl) (by rw [hchild]; simp [Child.status])
  | ended e =>
    have hnot : ¬call.CutOff := by
      rintro ⟨e', n, hkilled, -⟩
      exact Child.noConfusion (hchild.symm.trans hkilled)
    rcases hmain e with ⟨ids, hreads, hne, hcreates, heq⟩ | ⟨hstatus, hout⟩
    · refine .whole e ids hreads hne hcreates ?_ (Or.inl ⟨hchild, ?_⟩) hnot
      · rw [hchild, Child.out, heq]
        rfl
      · rw [hchild, Child.status, heq]
    · refine .nothing ?_ ?_
      · rw [hchild, Child.out, hout]
      · rw [hchild, Child.status]
        simpa using hstatus
  | killed e n =>
    have hstatus : call.child.status (spinOptions name cpus) ≠ some 0 := by
      rw [hchild, Child.status]
      simp
    have hout : call.child.out (spinOptions name cpus) =
        (Spin.main (spinOptions name cpus) e).2.take n := by rw [hchild, Child.out]
    rcases hmain e with ⟨ids, hreads, hne, hcreates, heq⟩ | ⟨-, hnil⟩
    · have hrecord : (Spin.main (spinOptions name cpus) e).2 = record name
          (Spin.summaryFields (spinOptions name cpus) e (Spin.workers e ids)) := by
        rw [heq]
        rfl
      rw [hrecord] at hout
      by_cases hwhole : call.child.out (spinOptions name cpus) = record name
          (Spin.summaryFields (spinOptions name cpus) e (Spin.workers e ids))
      · refine .whole e ids hreads hne hcreates hwhole (Or.inr ⟨n, hchild⟩) ?_
        rintro ⟨e', n', hkilled, -, hpart⟩
        obtain ⟨rfl, rfl⟩ := Child.killed.inj (hchild.symm.trans hkilled)
        exact hpart (hwhole.trans hrecord.symm)
      · rcases take_record hlabel Spin.summaryFields_keys Spin.summaryFields_slots n with
          h | h | ⟨pre, hpre, hbreak⟩
        · exact .nothing (hout.trans h) hstatus
        · exact absurd (hout.trans h) hwhole
        · refine .part pre (hout.trans hpre) hbreak ⟨e, n, hchild, ?_, ?_⟩
          · rw [hout, hpre]
            exact List.cons_ne_nil _ _
          · rwa [hrecord]
    · exact .nothing (by rw [hout, hnil, List.take_nil]) hstatus

/-! ## What the harness collects -/

theorem hasKey_iff (k : Text) (ms : List (Text × Value)) :
    hasKey k (.obj ms) = true ↔ k ∈ ms.map Prod.fst := by
  simp [hasKey, List.mem_map, List.any_eq_true]

theorem pkgJ_mem (nan : Text → Nat → Text) (m : Energy.Machine) (s : Energy.Main)
    (e : Energy.Ending) :
    "pkg_j".toList ∈ (Energy.summaryFields nan m s e).map Prod.fst := by
  have hany : ((Energy.summaryFields nan m s e).map Prod.fst).any (· == "pkg_j".toList) = true := by
    unfold Energy.summaryFields
    simp only [List.map_cons, List.map_nil]
    decide
  simpa using hany

theorem recorded_iff_reads {r : Energy.Finished} (h : isLabel r.o.label = true)
    (hdone : r.final.pc = .done) :
    r.Recorded ↔ ∀ f ∈ Energy.summaryFields r.nan r.m r.final r.ending, ∃ v, Json.Reads f.2 v := by
  have hkept : Kept (Energy.summary r.nan r.o r.m r.final r.ending) ↔
      Kept (labelOnly r.o.label) ∧
        ∀ f ∈ Energy.summaryFields r.nan r.m r.final r.ending, ∃ v, Json.Reads f.2 v :=
    record_kept_iff r.o.label (List.cons_ne_nil _ _) Energy.summaryFields_keys
      (Energy.summaryFields_slots r.isNan)
  constructor
  · exact fun hrec => (hkept.mp hrec.2).2
  · exact fun hread => ⟨hdone, hkept.mpr ⟨labelOnly_kept h, hread⟩⟩

/-- The record of the sampler, on its own. -/
theorem collect_summary {r : Energy.Finished} (h : isLabel r.o.label = true) (hrec : r.Recorded) :
    ∃ o, hasKey "pkg_j".toList o = true ∧
      collectJson (Energy.summary r.nan r.o r.m r.final r.ending) = [o] := by
  obtain ⟨hplain, hprint⟩ := isLabel_all h
  have hread := (recorded_iff_reads h hrec.1).mp hrec
  obtain ⟨ms, hms, hcollect⟩ := collectJson_record hplain hprint Energy.summaryFields_keys
    (Energy.summaryFields_slots r.isNan) hread
  refine ⟨.obj ms, (hasKey_iff _ ms).mpr ?_, hcollect⟩
  rw [hms]
  exact List.mem_cons_of_mem _ (pkgJ_mem r.nan r.m r.final r.ending)

theorem collect_unread {r : Energy.Finished} (h : isLabel r.o.label = true)
    (hdone : r.final.pc = .done) (hnot : ¬r.Recorded) :
    collectJson (Energy.summary r.nan r.o r.m r.final r.ending) = [] := by
  apply collectJson_unread (isLabel_all h).2 (List.cons_ne_nil _ _) Energy.summaryFields_keys
    (Energy.summaryFields_slots r.isNan)
  exact fun hread => hnot ((recorded_iff_reads h hdone).mpr hread)

theorem collect_whole (h : isLabel name = true) (e : Spin.Env) (ws : List Spin.Worker) (u : Text) :
    collectJson (record name (Spin.summaryFields (spinOptions name cpus) e ws) ++ u) =
      Spin.summaryValue (spinOptions name cpus) e ws :: collectJson u := by
  obtain ⟨hplain, hprint⟩ := isLabel_all h
  have hread : readLine (recordLine name (Spin.summaryFields (spinOptions name cpus) e ws)) =
      some (Spin.summaryValue (spinOptions name cpus) e ws) :=
    @Spin.readLine_summary (spinOptions name cpus) e ws hplain
  rw [collectJson_append hprint Spin.summaryFields_keys Spin.summaryFields_slots hread,
    Option.toList_some, List.singleton_append]

theorem slot_spin (o : Spin.Options) (e : Spin.Env) (ws : List Spin.Worker) :
    slot {} (Spin.summaryValue o e ws) = { spin := some (Spin.summaryValue o e ws) } := rfl

theorem slot_energy {o : Value} (h : hasKey "pkg_j".toList o = true) (slots : ToolSlots) :
    slot slots o = { slots with energy := some o } := if_pos h

theorem isLabel_wraps (h : isLabel name = true) (call : Call name cpus) {r : Energy.Finished}
    (hr : call.meter = .finished r) : isLabel r.o.label = true := by
  rw [(call.wraps r hr).1]
  exact h

theorem meterWorks_iff (h : isLabel name = true) (call : Call name cpus) {r : Energy.Finished}
    (hr : call.meter = .finished r) : call.MeterWorks ↔ r.Recorded := by
  have hkept : Kept (labelOnly r.o.label) := labelOnly_kept (isLabel_wraps h call hr)
  rw [Energy.recorded_iff]
  constructor
  · rintro ⟨r', hr', hworks⟩
    obtain rfl := Meter.finished.inj (hr.symm.trans hr')
    exact ⟨hkept, hworks⟩
  · rintro ⟨-, hworks⟩
    exact ⟨r, hr, hworks⟩

theorem process_done (call : Call name cpus) {r : Energy.Finished} (hr : call.meter = .finished r)
    (hdone : r.final.pc = .done) :
    call.process = ⟨0, call.child.out (spinOptions name cpus) ++
      Energy.summary r.nan r.o r.m r.final r.ending⟩ := by
  unfold Call.process
  rw [hr]
  exact if_pos hdone

/-- A record that is marked ok: the sampler has its slot, and `spin` what it has printed. -/
theorem slots_of_works (h : isLabel name = true) (call : Call name cpus) (hworks : call.MeterWorks)
    (hcut : ¬call.CutOff) : ∃ energy, call.process.returncode = 0 ∧
      ((call.child.status (spinOptions name cpus) ≠ some 0 ∧
        classify (collectJson call.process.stdout) = { energy := some energy }) ∨
      ∃ e ids, Spin.parseCpus cpus = some ids ∧ ids ≠ [] ∧
        (∀ i < ids.length, e.creates i = true) ∧
        (call.child = .ended e ∧ call.child.status (spinOptions name cpus) = some 0 ∨
          ∃ written, call.child = .killed e written) ∧
        classify (collectJson call.process.stdout) =
          { energy := some energy,
            spin := some (Spin.summaryValue (spinOptions name cpus) e (Spin.workers e ids)) }) := by
  obtain ⟨r, hr, -⟩ := id hworks
  have hrec := (meterWorks_iff h call hr).mp hworks
  obtain ⟨energy, hkey, hcollect⟩ := collect_summary (isLabel_wraps h call hr) hrec
  refine ⟨energy, by rw [process_done call hr hrec.1], ?_⟩
  rw [process_done call hr hrec.1]
  cases left (isLabel_all h).2 call with
  | nothing hout hstatus =>
    refine Or.inl ⟨hstatus, ?_⟩
    rw [hout, List.nil_append, hcollect]
    exact slot_energy hkey {}
  | whole e ids hreads hne hcreates hout hstatus hnot =>
    refine Or.inr ⟨e, ids, hreads, hne, hcreates, hstatus, ?_⟩
    rw [hout, collect_whole h, hcollect]
    unfold classify
    rw [List.foldl_cons, List.foldl_cons, List.foldl_nil, slot_spin, slot_energy hkey]
  | part pre hout hbreak hpart => exact absurd hpart hcut

/-- What is cut off takes the record of the sampler with it. -/
theorem collect_cut (h : isLabel name = true) (call : Call name cpus) {r : Energy.Finished}
    (hr : call.meter = .finished r) (hcut : call.CutOff) :
    collectJson (call.child.out (spinOptions name cpus) ++
      Energy.summary r.nan r.o r.m r.final r.ending) = [] := by
  obtain ⟨hplain, hprint⟩ := isLabel_all (isLabel_wraps h call hr)
  cases left (isLabel_all h).2 call with
  | nothing hout hstatus =>
    obtain ⟨e, n, -, hne, -⟩ := hcut
    exact absurd hout hne
  | whole e ids hreads hne hcreates hout hstatus hnot => exact absurd hcut hnot
  | part pre hout hbreak hpart =>
    rw [hout]
    exact collectJson_lost hplain hprint (List.cons_ne_nil _ _) Energy.summaryFields_keys
      (Energy.summaryFields_slots r.isNan) hbreak

/-- A record of the sampler that is not read leaves its slot empty. -/
theorem energy_unread (h : isLabel name = true) (call : Call name cpus) {r : Energy.Finished}
    (hr : call.meter = .finished r) (hdone : r.final.pc = .done) (hnot : ¬r.Recorded)
    (hcut : ¬call.CutOff) :
    (classify (collectJson (call.child.out (spinOptions name cpus) ++
      Energy.summary r.nan r.o r.m r.final r.ending))).energy = none := by
  have hcollect := collect_unread (isLabel_wraps h call hr) hdone hnot
  cases left (isLabel_all h).2 call with
  | nothing hout hstatus =>
    rw [hout, List.nil_append, hcollect]
    rfl
  | whole e ids hreads hne hcreates hout hstatus hwhole =>
    rw [hout, collect_whole h, hcollect]
    unfold classify
    rw [List.foldl_cons, List.foldl_nil, slot_spin]
  | part pre hout hbreak hpart => exact absurd hpart hcut

/-- A record that is not. -/
theorem not_ok (h : isLabel name = true) (call : Call name cpus)
    (hlost : ¬call.MeterWorks ∨ call.CutOff) :
    okFixed call.process (classify (collectJson call.process.stdout)) = false := by
  cases hmeter : call.meter with
  | died returncode failed out =>
    have hcode : call.process.returncode = returncode := by
      unfold Call.process
      rw [hmeter]
    simp [okFixed, hcode, failed]
  | finished r =>
    by_cases hdone : r.final.pc = .done
    · rw [process_done call hmeter hdone]
      by_cases hcut : call.CutOff
      · rw [collect_cut h call hmeter hcut]
        rfl
      · have hnot : ¬r.Recorded := by
          rw [← meterWorks_iff h call hmeter]
          exact hlost.resolve_right hcut
        simp [okFixed, energy_unread h call hmeter hdone hnot hcut]
    · have hcode : call.process.returncode = -11 := by
        unfold Call.process
        rw [hmeter]
        simp only [if_neg hdone]
      simp [okFixed, hcode]

/-! ## The threads of a record -/

theorem int_eq_str (i : Int) (x : Nat) : Printf.int i = str x ↔ i = x := by
  constructor
  · intro h
    unfold Printf.int str Json.sign at h
    by_cases hneg : i < 0
    · obtain ⟨d, ds, hd⟩ := List.exists_cons_of_ne_nil (Nat.toDigits_ne_nil (n := x) (b := 10))
      have hdigit : d.isDigit = true := Json.toDigits_isDigit (n := x) (by simp [hd])
      rw [hd] at h
      simp only [hneg, decide_true, if_true, List.singleton_append, List.cons.injEq] at h
      rw [← h.1] at hdigit
      simp at hdigit
    · simp only [hneg, decide_false, Bool.false_eq_true, if_false, List.nil_append] at h
      have hnat : Nat.ofDigitChars 10 (Nat.toDigits 10 i.natAbs) 0 =
          Nat.ofDigitChars 10 (Nat.toDigits 10 x) 0 := by rw [h]
      rw [Nat.ofDigitChars_ten_toDigits, Nat.ofDigitChars_ten_toDigits] at hnat
      omega
  · rintro rfl
    simp [Printf.int, Json.sign, str]

theorem runsOn_iff (o : Spin.Options) (e : Spin.Env) (ids : List Int) (x : Nat) :
    RunsOn (Spin.summaryValue o e (Spin.workers e ids)) x ↔
      ∃ i, ids[i]? = some (x : Int) ∧ e.affinity i x = true := by
  have hthreads : threadsOf (Spin.summaryValue o e (Spin.workers e ids)) =
      (Spin.workers e ids).map Spin.workerValue := rfl
  have hcpu : ∀ w, get "cpu".toList (Spin.workerValue w) = some (.num (Printf.int w.cpu)) :=
    fun w => rfl
  have hbound : ∀ w, get "affinity_ok".toList (Spin.workerValue w) =
      some (.bool w.affinityOk) := fun w => rfl
  unfold RunsOn
  simp only [hthreads, List.mem_map, exists_exists_and_eq_and, hcpu, hbound, Option.some.injEq,
    Value.num.injEq, Value.bool.injEq, int_eq_str]
  constructor
  · rintro ⟨w, hw, hx, hok⟩
    obtain ⟨i, hi, rfl⟩ := List.mem_mapIdx.mp hw
    have hid : ids[i] = (x : Int) := hx
    refine ⟨i, by rw [List.getElem?_eq_getElem hi, hid], ?_⟩
    rw [← hid]
    exact hok
  · rintro ⟨i, hi, hok⟩
    obtain ⟨hlt, hid⟩ := List.getElem?_eq_some_iff.mp hi
    refine ⟨Spin.runWorker e i x, List.mem_mapIdx.mpr ⟨i, hlt, by rw [hid]⟩, rfl, hok⟩

theorem okMeansApplied_iff (h : isLabel name = true) (arm : Arm) (xs : List Nat)
    (call : Call name cpus) :
    OkMeansApplied xs call (recordFixed arm call.process) ↔
      ¬call.MeterWorks ∨ call.CutOff ∨ call.Loads xs := by
  have hok : (recordFixed arm call.process).ok =
      okFixed call.process (classify (collectJson call.process.stdout)) := rfl
  have hslots : (recordFixed arm call.process).slots =
      classify (collectJson call.process.stdout) := rfl
  unfold OkMeansApplied
  rw [hok]
  by_cases hlost : ¬call.MeterWorks ∨ call.CutOff
  · refine iff_of_true (fun hyes => ?_) (or_assoc.mp (Or.inl hlost))
    rw [not_ok h call hlost] at hyes
    exact Bool.noConfusion hyes
  · obtain ⟨hworks, hcut⟩ := not_or.mp hlost
    obtain ⟨energy, hcode, hspin⟩ := slots_of_works h call (not_not.mp hworks) hcut
    have hyes : okFixed call.process (classify (collectJson call.process.stdout)) = true := by
      rcases hspin with ⟨-, hclass⟩ | ⟨_, _, -, -, -, -, hclass⟩ <;> simp [okFixed, hcode, hclass]
    rw [← or_assoc, or_iff_right hlost]
    rcases hspin with ⟨hstatus, hclass⟩ | ⟨e, ids, hreads, hne, hcreates, hfate, hclass⟩
    · refine iff_of_false (fun happlied => hstatus (happlied hyes).exits) ?_
      rintro ⟨e, ids, hchild, hreads, hne, hcreates, -⟩
      have hzero : (Spin.main (spinOptions name cpus) e).1 = 0 :=
        Spin.main_status hreads hne hcreates
      exact hstatus (by rw [hchild, Child.status, hzero])
    · constructor
      · intro happlied
        obtain ⟨hexits, o, ho, hon⟩ := happlied hyes
        rw [hslots, hclass] at ho
        obtain rfl := Option.some.inj ho
        rcases hfate with ⟨hchild, -⟩ | ⟨n, hkilled⟩
        · exact ⟨e, ids, hchild, hreads, hne, hcreates,
            fun x hx => (runsOn_iff _ e ids x).mp (hon x hx)⟩
        · rw [hkilled, Child.status] at hexits
          exact absurd hexits (by simp)
      · rintro ⟨e', ids', hchild', hreads', -, -, hbound⟩ -
        rcases hfate with ⟨hchild, hstatus⟩ | ⟨n, hkilled⟩
        · obtain rfl := Child.ended.inj (hchild.symm.trans hchild')
          obtain rfl := Option.some.inj (hreads.symm.trans hreads')
          refine ⟨hstatus, _, by rw [hslots, hclass], fun x hx => ?_⟩
          exact (runsOn_iff _ e ids x).mpr (hbound x hx)
        · exact Child.noConfusion (hkilled.symm.trans hchild')

end Calls

/-! ## The arms -/

theorem isLabel_append (s t : Text) : isLabel (s ++ t) = (isLabel s && isLabel t) := List.all_append

theorem isLabel_str (n : Nat) : isLabel (str n) = true := by
  apply List.all_eq_true.mpr
  intro c hc
  have hdigit : c.isDigit = true := Json.toDigits_isDigit hc
  have hprint := Printf.digit_printable hdigit
  have hquote : c ≠ '"' := by
    rintro rfl
    exact Bool.noConfusion hdigit
  have hslash : c ≠ '\\' := by
    rintro rfl
    exact Bool.noConfusion hdigit
  simp only [Printf.printable, Bool.and_eq_true, decide_eq_true_eq] at hprint
  simp [Json.plain, Printf.printable, hquote, hslash, hprint]

theorem isLabel_rail (b : Bench) : ∀ arm ∈ (e1Rail b).getD [], isLabel arm.name = true := by
  have hnames : ∀ name ∈ ["both-performance", "both-power", "both-balance", "partitioned"],
      isLabel name.toList = true := by decide
  intro arm hmem
  unfold e1Rail at hmem
  cases hbig : b.big.head? with
  | none => simp [hbig] at hmem
  | some x =>
    cases hlittle : b.little.head? with
    | none => simp [hbig, hlittle] at hmem
    | some y =>
      simp only [hbig, hlittle, Option.bind_eq_bind, Option.bind_some, Option.getD_some] at hmem
      obtain ⟨name, hname, rfl⟩ := List.mem_map.mp hmem
      exact hnames name hname

theorem isLabel_poison (b : Bench) : ∀ arm ∈ (e1bPoison b).getD [], isLabel arm.name = true := by
  have hnames : ∀ name ∈ ["others-power", "others-balance", "others-performance",
      "others-balance-power"], isLabel name.toList = true := by decide
  intro arm hmem
  unfold e1bPoison at hmem
  cases hlittle : b.little.head? with
  | none => simp [hlittle] at hmem
  | some y =>
    simp only [hlittle, Option.bind_eq_bind, Option.bind_some, Option.getD_some] at hmem
    obtain ⟨name, hname, rfl⟩ := List.mem_map.mp hmem
    exact hnames name hname

theorem isLabel_cond (b : Bench) : ∀ cond ∈ e2Conditions b, isLabel cond.1 = true := by
  intro cond hmem
  unfold e2Conditions at hmem
  rw [List.cons_append, List.mem_cons, List.mem_append, List.mem_flatMap] at hmem
  rcases hmem with rfl | ⟨k, -, hk⟩ | hbig
  · decide
  · simp only [List.mem_cons, List.not_mem_nil, or_false] at hk
    rcases hk with rfl | rfl
    · rw [isLabel_append, isLabel_str]
      decide
    · rw [isLabel_append, isLabel_str]
      decide
  · obtain rfl := List.mem_singleton.mp hbig
    rfl

theorem isLabel_coupling (b : Bench) : ∀ arm ∈ e2Coupling b, isLabel arm.name = true := by
  have hepps : ∀ epp ∈ ["partitioned", "flat"], isLabel epp.toList = true := by decide
  intro arm hmem
  unfold e2Coupling at hmem
  obtain ⟨epp, hepp, hmem⟩ := List.mem_flatMap.mp hmem
  obtain ⟨cond, hcond, rfl⟩ := List.mem_map.mp hmem
  have hdot : isLabel (['.'] ++ cond.1) = true := by
    rw [isLabel_append, isLabel_cond b cond hcond]
    rfl
  have hname : isLabel (epp.toList ++ (['.'] ++ cond.1)) = true := by
    rw [isLabel_append, hepps epp hepp, hdot]
    rfl
  exact hname

/-- The names of the arms need no escape. -/
theorem isLabel_arm (b : Bench) : ∀ arm ∈ fixedArms b, isLabel arm.name = true := by
  unfold fixedArms
  simp only [List.forall_mem_append]
  exact ⟨⟨isLabel_rail b, isLabel_poison b⟩, isLabel_coupling b⟩

/-- **When an ok means that the load was applied.** It does where the sampler loses its record,
where `spin` is killed in the middle of its own, and where `spin` ends by itself with every
thread created and every CPU bound. -/
theorem ok_means_applied_iff (b : Bench) (arm : Arm) (harm : arm ∈ fixedArms b) :
    ∀ load ∈ arm.load, ∀ call : Call arm.name load.2,
      OkMeansApplied load.1 call (recordFixed arm call.process) ↔
        ¬call.MeterWorks ∨ call.CutOff ∨ call.Loads load.1 := by
  intro load hload call
  exact okMeansApplied_iff (isLabel_arm b arm harm) arm load.1 call

/-! ## A machine with four CPUs -/

def fourCpus : Bench := ⟨[0, 1], [2, 3]⟩

-- The first arm of `e1_rail`.
def railArm : Arm := ⟨"e1-rail".toList, "both-performance".toList, some ([0, 2], "0,2".toList)⟩

theorem railArm_mem : railArm ∈ fixedArms fourCpus := by decide

def endTick : Energy.Tick := { Energy.sampleAt (1 / 5) 3000000 with childDone := true }

/-- A sampler that works around a child. -/
theorem meter_works (name : Text) (status : Option Nat) : ∃ r : Energy.Finished,
    r.o = samplerOptions name ∧ r.ending.child = some status ∧ r.m.tscMhz = some 2400 ∧
      r.rapl = Energy.fiveDomains ∧ r.ending.tEnd = 1 / 5 := by
  have hends : ∃ s, run (Energy.sampleStep (samplerOptions name) ⟨4, some 2400, 100⟩)
      (Energy.start Energy.fiveDomains (Energy.sampleAt 0 0)) [endTick] = some s ∧
      s.pc = .done := ⟨_, rfl, rfl⟩
  obtain ⟨final, hrun, hpc⟩ := hends
  exact ⟨{
    o := samplerOptions name
    m := ⟨4, some 2400, 100⟩
    rapl := Energy.fiveDomains
    first := Energy.sampleAt 0 0
    ticks := [endTick]
    final := final
    ending := ⟨1 / 5, some status, fun _ => none, fun _ => none, none, none⟩
    nan := fun _ _ => "nan".toList
    ran := hrun
    ended := by simp [hpc]
    isNan := fun _ _ => Or.inl rfl }, rfl, rfl, rfl, rfl, rfl⟩

theorem call_works (name cpus : Text) (child : Child) :
    ∃ call : Call name cpus, call.child = child ∧ call.MeterWorks := by
  obtain ⟨r, ho, hchild, htsc, hrapl, hend⟩ :=
    meter_works name (child.status (spinOptions name cpus))
  have hwraps : ∀ r', Meter.finished r = .finished r' → r'.o = samplerOptions name ∧
      r'.ending.child = some (child.status (spinOptions name cpus)) := by
    rintro r' hr'
    obtain rfl := Meter.finished.inj hr'
    exact ⟨ho, hchild⟩
  refine ⟨⟨child, .finished r, hwraps⟩, rfl, r, rfl, ?_, ?_, ?_⟩
  · simp [htsc]
  · rw [hrapl]
    decide
  · rw [hend]
    norm_num

-- Threads that burn twenty seconds, bound or not.
def twentySeconds (bound : Bool) : Spin.Env where
  creates := fun _ => true
  affinity := fun _ _ => bound
  chunks := fun _ => 400000
  busyS := fun _ => 20
  wall := 20

theorem ok_means_applied_iff_bound : ∃ call : Call railArm.name "0,2".toList,
    call.child = .ended (twentySeconds true) ∧ call.MeterWorks ∧
      OkMeansApplied [0, 2] call (recordFixed railArm call.process) := by
  obtain ⟨call, hchild, hworks⟩ :=
    call_works railArm.name "0,2".toList (.ended (twentySeconds true))
  refine ⟨call, hchild, hworks, ?_⟩
  apply (ok_means_applied_iff fourCpus railArm railArm_mem ([0, 2], "0,2".toList) rfl call).mpr
  refine Or.inr (Or.inr ⟨twentySeconds true, [0, 2], hchild, by decide, by simp,
    fun _ _ => rfl, ?_⟩)
  intro x hx
  rcases List.mem_cons.mp hx with rfl | hx
  · exact ⟨0, rfl, rfl⟩
  · obtain rfl := List.mem_singleton.mp hx
    exact ⟨1, rfl, rfl⟩

/-- No thread is where it was asked to be, and the record is ok. -/
theorem ok_means_applied_fails : railArm ∈ fixedArms fourCpus ∧
    ∃ call : Call railArm.name "0,2".toList,
      call.child = .ended (twentySeconds false) ∧
      (recordFixed railArm call.process).ok = true ∧
      ¬OkMeansApplied [0, 2] call (recordFixed railArm call.process) := by
  obtain ⟨call, hchild, hworks⟩ :=
    call_works railArm.name "0,2".toList (.ended (twentySeconds false))
  have hlabel := isLabel_arm fourCpus railArm railArm_mem
  have hcut : ¬call.CutOff := by
    rintro ⟨e, n, hkilled, -⟩
    exact Child.noConfusion (hchild.symm.trans hkilled)
  have hloads : ¬call.Loads [0, 2] := by
    rintro ⟨e, ids, hended, -, -, -, hbound⟩
    obtain rfl := Child.ended.inj (hchild.symm.trans hended)
    obtain ⟨i, -, hi⟩ := hbound 0 List.mem_cons_self
    exact Bool.noConfusion hi
  have hnot : ¬OkMeansApplied [0, 2] call (recordFixed railArm call.process) := by
    rw [okMeansApplied_iff hlabel]
    rintro (hbroken | hpart | hall)
    · exact hbroken hworks
    · exact hcut hpart
    · exact hloads hall
  refine ⟨railArm_mem, call, hchild, ?_, hnot⟩
  -- what is not ok means nothing
  by_contra hok
  exact hnot fun hyes => absurd hyes hok

end Bench

end FakeBigLittle
