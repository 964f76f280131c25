import FakeBigLittle.Loader.Spec

/-!
# What the loader's steps can do

One inversion lemma for each function of `main`'s step. The invariants of the loader are
proved from these.
-/

namespace FakeBigLittle

open CString

variable {o : Options} {n : Nat} {s t : Loader} {e : LoaderEvent}

/-! ## Partition and EPP -/

theorem resolveStep_cases (h : resolveStep o n s e = some t) :
    ∃ coreIdOf, e = .cores coreIdOf ∧
      ((∃ err, resolvePartition o n coreIdOf s.cpus = .error err ∧ t = s.die) ∨
      ∃ mode cpus, resolvePartition o n coreIdOf s.cpus = .ok (mode, cpus) ∧
        t = { s with pc := .saveEpp 0, mode := mode, cpus := cpus }) := by
  unfold resolveStep at h
  split at h
  · rename_i coreIdOf
    refine ⟨coreIdOf, rfl, ?_⟩
    split at h
    · rename_i err herr
      exact Or.inl ⟨err, herr, (Option.some.inj h).symm⟩
    · rename_i mode cpus hok
      exact Or.inr ⟨mode, cpus, hok, (Option.some.inj h).symm⟩
  · simp at h

theorem saveStep_cases {cpu : Nat} (h : saveStep o n s cpu e = some t) :
    (∃ epp msr, e = .read epp msr ∧ cpu < n ∧
      t = { s with
        pc := .saveEpp (cpu + 1)
        cpus := Function.update s.cpus cpu ((s.cpus cpu).save
          (if epp then some ((s.epp cpu).text ++ ['\n']) else none) msr) }) ∨
    (e = .ok ∧ n ≤ cpu ∧ t = { s with pc := if o.noEpp then .report else .applyEpp 0 }) := by
  unfold saveStep at h
  split at h
  · rename_i epp msr
    by_cases hcpu : cpu < n
    · rw [if_pos hcpu] at h
      exact Or.inl ⟨epp, msr, rfl, hcpu, (Option.some.inj h).symm⟩
    · simp [if_neg hcpu] at h
  · by_cases hcpu : cpu < n
    · simp [if_pos hcpu] at h
    · rw [if_neg hcpu] at h
      exact Or.inr ⟨rfl, by omega, (Option.some.inj h).symm⟩
  · simp at h

theorem applyStep_cases {cpu : Nat} (h : applyStep o n s cpu e = some t) :
    (∃ msr, e = .write none msr ∧ cpu < n ∧
      t = (s.writeEpp cpu (o.want (s.cpus cpu)) none).die) ∨
    (∃ v msr, e = .write (some v) msr ∧ cpu < n ∧
      t = { s.writeEpp cpu (o.want (s.cpus cpu)) (some v) with
        pc := .applyEpp (cpu + 1)
        cpus := Function.update s.cpus cpu ((s.cpus cpu).reread msr) }) ∨
    (e = .ok ∧ n ≤ cpu ∧ t = { s with pc := .report }) := by
  unfold applyStep at h
  split at h
  · rename_i shown msr
    by_cases hcpu : cpu < n
    · rw [if_pos hcpu] at h
      cases shown with
      | none => exact Or.inl ⟨msr, rfl, hcpu, (Option.some.inj h).symm⟩
      | some v => exact Or.inr (Or.inl ⟨v, msr, rfl, hcpu, (Option.some.inj h).symm⟩)
    · simp [if_neg hcpu] at h
  · by_cases hcpu : cpu < n
    · simp [if_pos hcpu] at h
    · rw [if_neg hcpu] at h
      exact Or.inr (Or.inr ⟨rfl, by omega, (Option.some.inj h).symm⟩)
  · simp at h

theorem restoreStep_cases {cpu : Nat} {code : Int} (h : restoreStep n s cpu code e = some t) :
    (∃ shown msr, e = .write shown msr ∧ cpu < n ∧ (s.cpus cpu).eppValid = true ∧
      t = { s.writeEpp cpu (s.cpus cpu).eppSaved shown with pc := .restoreEpp (cpu + 1) code }) ∨
    (e = .ok ∧ cpu < n ∧ (s.cpus cpu).eppValid = false ∧
      t = { s with pc := .restoreEpp (cpu + 1) code }) ∨
    (e = .ok ∧ n ≤ cpu ∧ t = { s with pc := .exited code }) := by
  unfold restoreStep at h
  split at h
  · rename_i shown msr
    by_cases hcpu : cpu < n ∧ (s.cpus cpu).eppValid = true
    · rw [if_pos hcpu] at h
      exact Or.inl ⟨shown, msr, rfl, hcpu.1, hcpu.2, (Option.some.inj h).symm⟩
    · simp [if_neg hcpu] at h
  · by_cases hcpu : cpu < n
    · rw [if_pos hcpu] at h
      by_cases hvalid : (s.cpus cpu).eppValid = true
      · simp [if_pos hvalid] at h
      · rw [if_neg hvalid] at h
        exact Or.inr (Or.inl ⟨rfl, hcpu, by simpa using hvalid, (Option.some.inj h).symm⟩)
    · rw [if_neg hcpu] at h
      exact Or.inr (Or.inr ⟨rfl, by omega, (Option.some.inj h).symm⟩)
  · simp at h

/-! ## Comm rules -/

/-- `add_comm_rules` for a list that was given. -/
def givenRules (list : Option Text) (domain : Dom) (rules : Nat → CommRule) (slot : Nat) :
    Except Fatal ((Nat → CommRule) × Nat) :=
  match list with
  | none => .ok (rules, slot)
  | some list => addCommRules list domain rules slot

theorem rulesStep_cases {list : Option Text} {d : Dom} {next : Pc}
    (h : rulesStep s list d next e = some t) :
    (e = .ok ∧ ∃ rules slot, givenRules list d s.skel.commRules s.slot = .ok (rules, slot) ∧
      t = { s with pc := next, skel := { s.skel with commRules := rules }, slot := slot }) ∨
    (e = .ok ∧ (∃ err, givenRules list d s.skel.commRules s.slot = .error err) ∧ t = s.die) ∨
    (e = .fail ∧ list.isSome = true ∧ t = s.die) := by
  unfold rulesStep at h
  split at h
  · split at h
    · exact Or.inl ⟨rfl, _, _, rfl, (Option.some.inj h).symm⟩
    · split at h
      · rename_i err herr
        exact Or.inr (Or.inl ⟨rfl, ⟨err, herr⟩, (Option.some.inj h).symm⟩)
      · rename_i rules slot hok
        exact Or.inl ⟨rfl, rules, slot, hok, (Option.some.inj h).symm⟩
  · by_cases hlist : list.isSome = true
    · rw [if_pos hlist] at h
      exact Or.inr (Or.inr ⟨rfl, hlist, (Option.some.inj h).symm⟩)
    · simp [if_neg hlist] at h
  · simp at h

theorem addRules_error_iff (d : Dom) (tokens : List Text) (rules : Nat → CommRule) (slot : Nat) :
    (∃ e, addRules d tokens rules slot = .error e) ↔
      tokens ≠ [] ∧ blsMaxCommRules < slot + tokens.length := by
  induction tokens generalizing rules slot with
  | nil => simp [addRules]
  | cons token tokens ih =>
    unfold addRules
    split_ifs with hslot
    · simp
      omega
    · rw [ih]
      cases tokens with
      | nil => simp; omega
      | cons _ _ => simp; omega

/-- A list with more tokens than rules are left. -/
def TooMany (list : Option Text) (slot : Nat) : Prop :=
  ∃ l, list = some l ∧ strtok ',' l ≠ [] ∧ blsMaxCommRules < slot + (strtok ',' l).length

theorem givenRules_error_iff (list : Option Text) (d : Dom) (rules : Nat → CommRule)
    (slot : Nat) : (∃ e, givenRules list d rules slot = .error e) ↔ TooMany list slot := by
  unfold givenRules TooMany
  cases list with
  | none => simp
  | some l =>
    simp only [Option.some.injEq, exists_eq_left']
    exact addRules_error_iff d (strtok ',' l) rules slot

/-! ## One call -/

/-- The run loop ends: a signal came, the time is over, or the scheduler is gone. -/
def LoopOver (o : Options) (s : Loader) (timeUp ejected : Bool) : Prop :=
  s.exiting = true ∨ (o.duration && timeUp) = true ∨ ejected = true

theorem pollStep_cases (h : pollStep o s e = some t) :
    ∃ timeUp ejected memory, e = .poll timeUp ejected memory ∧
      ((LoopOver o s timeUp ejected ∧ t = { s with pc := .stats }) ∨
      (¬ LoopOver o s timeUp ejected ∧
        ((o.interval = true ∧ memory = true ∧ t = { s with out := s.out ++ [.stats] }) ∨
        (o.interval = true ∧ memory = false ∧ t = s.die) ∨
        (o.interval = false ∧ t = s)))) := by
  unfold pollStep at h
  split at h
  · rename_i timeUp ejected memory
    refine ⟨timeUp, ejected, memory, rfl, ?_⟩
    unfold LoopOver
    split_ifs at h with hexit htime hejected hinterval hmemory <;>
      obtain rfl := Option.some.inj h
    · exact Or.inl ⟨Or.inl hexit, rfl⟩
    · exact Or.inl ⟨Or.inr (Or.inl htime), rfl⟩
    · exact Or.inl ⟨Or.inr (Or.inr hejected), rfl⟩
    all_goals
      have hgo : ¬ (s.exiting = true ∨ (o.duration && timeUp) = true ∨ ejected = true) := by
        tauto
    · exact Or.inr ⟨hgo, Or.inl ⟨hinterval, hmemory, rfl⟩⟩
    · exact Or.inr ⟨hgo, Or.inr (Or.inl ⟨hinterval, by simpa using hmemory, rfl⟩)⟩
    · exact Or.inr ⟨hgo, Or.inr (Or.inr ⟨by simpa using hinterval, rfl⟩)⟩
  · simp at h

/-- What `main` can do between `apply_epp` and `restore_epp`. -/
inductive BpfMove (o : Options) (n : Nat) (s : Loader) : LoaderEvent → Loader → Prop
  | dryRun (hpc : s.pc = .report) (hdry : o.dryRun = true) : BpfMove o n s .ok { s with
      out := s.out ++ [Record.partition ((List.range n).map (row o s.cpus))]
      pc := if o.persist then .exited 0 else .restoreEpp 0 0 }
  | report (hpc : s.pc = .report) (hdry : o.dryRun = false) : BpfMove o n s .ok { s with
      out := s.out ++ [Record.partition ((List.range n).map (row o s.cpus))]
      pc := .openSkel }
  | opened (hpc : s.pc = .openSkel) :
      BpfMove o n s .ok { s with pc := .loadSkel, skel := rodata o n s.mode s.skel }
  | loaded (hpc : s.pc = .loadSkel) : BpfMove o n s .ok { s with
      pc := .bigRules
      skel := { s.skel with
        cpuDom := fun cpu => if cpu < n then (s.cpus cpu).domain else s.skel.cpuDom cpu } }
  | fails (hpc : s.pc = .openSkel ∨ s.pc = .loadSkel ∨ s.pc = .attach) :
      BpfMove o n s .fail { s with pc := .restoreEpp 0 1 }
  | bigRules {e : LoaderEvent} {t : Loader} (hpc : s.pc = .bigRules)
      (h : rulesStep s o.bigComm .big .littleRules e = some t) : BpfMove o n s e t
  | littleRules {e : LoaderEvent} {t : Loader} (hpc : s.pc = .littleRules)
      (h : rulesStep s o.littleComm .little .signalInt e = some t) : BpfMove o n s e t
  | handlesInt (hpc : s.pc = .signalInt) : BpfMove o n s .ok
      { s with pc := .signalTerm, handles := Function.update s.handles .int true }
  | handlesTerm (hpc : s.pc = .signalTerm) : BpfMove o n s .ok
      { s with pc := .attach, handles := Function.update s.handles .term true }
  | attached (hpc : s.pc = .attach) : BpfMove o n s .ok
      { s with pc := .loop, attached := true, out := s.out ++ [.attached] }
  | polled {e : LoaderEvent} {t : Loader} (hpc : s.pc = .loop) (h : pollStep o s e = some t) :
      BpfMove o n s e t
  | stats (hpc : s.pc = .stats) :
      BpfMove o n s .ok { s with pc := .detach, out := s.out ++ [.stats] }
  | statsFail (hpc : s.pc = .stats) : BpfMove o n s .fail s.die
  | detached (hpc : s.pc = .detach) : BpfMove o n s .ok
      { s with attached := false, pc := if o.persist then .exited 0 else .restoreEpp 0 0 }

theorem bpfStep_move (h : bpfStep o n s e = some t) : BpfMove o n s e t := by
  unfold bpfStep at h
  split at h
  case h_1 hpc =>
    by_cases hdry : o.dryRun = true
    · rw [if_pos hdry] at h
      exact Option.some.inj h ▸ .dryRun hpc hdry
    · rw [if_neg hdry] at h
      exact Option.some.inj h ▸ .report hpc (by simpa using hdry)
  case h_2 hpc => exact Option.some.inj h ▸ .opened hpc
  case h_3 hpc => exact Option.some.inj h ▸ .fails (Or.inl hpc)
  case h_4 hpc => exact Option.some.inj h ▸ .loaded hpc
  case h_5 hpc => exact Option.some.inj h ▸ .fails (Or.inr (Or.inl hpc))
  case h_6 hpc => exact .bigRules hpc h
  case h_7 hpc => exact .littleRules hpc h
  case h_8 hpc => exact Option.some.inj h ▸ .handlesInt hpc
  case h_9 hpc => exact Option.some.inj h ▸ .handlesTerm hpc
  case h_10 hpc => exact Option.some.inj h ▸ .attached hpc
  case h_11 hpc => exact Option.some.inj h ▸ .fails (Or.inr (Or.inr hpc))
  case h_12 hpc => exact .polled hpc h
  case h_13 hpc => exact Option.some.inj h ▸ .stats hpc
  case h_14 hpc => exact Option.some.inj h ▸ .statsFail hpc
  case h_15 hpc => exact Option.some.inj h ▸ .detached hpc
  case h_16 => simp at h

/-- What `main` can do. -/
inductive MainMove (o : Options) (n : Nat) (s : Loader) : LoaderEvent → Loader → Prop
  | signal (sig : Sig) (hrun : s.pc.isEnd = false) :
      MainMove o n s (.signal sig) (signalStep s sig)
  | resolve {e : LoaderEvent} {t : Loader} (hpc : s.pc = .resolve)
      (h : resolveStep o n s e = some t) : MainMove o n s e t
  | save {e : LoaderEvent} {t : Loader} (cpu : Nat) (hpc : s.pc = .saveEpp cpu)
      (h : saveStep o n s cpu e = some t) : MainMove o n s e t
  | apply {e : LoaderEvent} {t : Loader} (cpu : Nat) (hpc : s.pc = .applyEpp cpu)
      (h : applyStep o n s cpu e = some t) : MainMove o n s e t
  | restore {e : LoaderEvent} {t : Loader} (cpu : Nat) (code : Int)
      (hpc : s.pc = .restoreEpp cpu code) (h : restoreStep n s cpu code e = some t) :
      MainMove o n s e t
  | bpf {e : LoaderEvent} {t : Loader} (h : BpfMove o n s e t) : MainMove o n s e t

theorem mainStep_move (h : mainStep o n s e = some t) : MainMove o n s e t := by
  unfold mainStep at h
  split at h
  case h_1 => simp at h
  case h_2 => simp at h
  case h_3 sig hexit hkill =>
    refine Option.some.inj h ▸ .signal sig ?_
    revert hexit hkill
    cases s.pc <;> simp [Pc.isEnd]
  case h_4 hpc _ => exact .resolve hpc h
  case h_5 cpu hpc _ => exact .save cpu hpc h
  case h_6 cpu hpc _ => exact .apply cpu hpc h
  case h_7 cpu code hpc _ => exact .restore cpu code hpc h
  case h_8 => exact .bpf (bpfStep_move h)

theorem mainStep_signal (h : s.pc.isEnd = false) (sig : Sig) :
    mainStep o n s (.signal sig) = some (signalStep s sig) := by
  unfold mainStep
  split <;> simp_all [Pc.isEnd]

/-! ## The link -/

/-- Where `main` holds the link of its scheduler. -/
def Pc.isAttached : Pc → Bool
  | .loop | .stats | .detach => true
  | _ => false

/-- The call of an attached `main` gives the link up. -/
def Detaches (l : Loader) : LoaderEvent → Prop
  | .signal sig => l.handles sig = false
  | .ok => l.pc = .detach
  | .fail => l.pc = .stats
  | _ => False

instance (l : Loader) (e : LoaderEvent) : Decidable (Detaches l e) :=
  match e with
  | .signal sig => inferInstanceAs (Decidable (l.handles sig = false))
  | .ok => inferInstanceAs (Decidable (l.pc = .detach))
  | .fail => inferInstanceAs (Decidable (l.pc = .stats))
  | .cores _ | .read _ _ | .write _ _ | .poll _ _ _ => inferInstanceAs (Decidable False)

section Link

variable {o : Options} {n : Nat} {l l' : Loader} {e : LoaderEvent}

theorem bpfMove_attached (h : BpfMove o n l e l') : l'.attached = l.attached ∨
    (l'.attached = true ∧ l'.pc = .loop) ∨ (l.pc = .detach ∧ l'.attached = false) := by
  cases h with
  | attached hpc => exact Or.inr (Or.inl ⟨rfl, rfl⟩)
  | detached hpc => exact Or.inr (Or.inr ⟨hpc, rfl⟩)
  | bigRules hpc h | littleRules hpc h =>
    obtain ⟨-, -, -, -, rfl⟩ | ⟨-, -, rfl⟩ | ⟨-, -, rfl⟩ := rulesStep_cases h <;> exact Or.inl rfl
  | polled hpc h =>
    obtain ⟨-, -, -, -, ⟨-, rfl⟩ | ⟨-, ⟨-, -, rfl⟩ | ⟨-, -, rfl⟩ | ⟨-, rfl⟩⟩⟩ :=
      pollStep_cases h <;> exact Or.inl rfl
  | _ => exact Or.inl rfl

/-- Only the attach call makes a link, and only the detach call gives it up. -/
theorem mainStep_attached (h : mainStep o n l e = some l') : l'.attached = l.attached ∨
    (l'.attached = true ∧ l'.pc = .loop) ∨ (l.pc = .detach ∧ l'.attached = false) := by
  cases mainStep_move h with
  | signal sig hrun =>
    unfold signalStep
    split_ifs <;> exact Or.inl rfl
  | resolve hpc h =>
    obtain ⟨-, -, ⟨-, -, rfl⟩ | ⟨-, -, -, rfl⟩⟩ := resolveStep_cases h <;> exact Or.inl rfl
  | save cpu hpc h =>
    obtain ⟨-, -, -, -, rfl⟩ | ⟨-, -, rfl⟩ := saveStep_cases h <;> exact Or.inl rfl
  | apply cpu hpc h =>
    obtain ⟨-, -, -, rfl⟩ | ⟨-, -, -, -, rfl⟩ | ⟨-, -, rfl⟩ := applyStep_cases h <;>
      exact Or.inl rfl
  | restore cpu code hpc h =>
    obtain ⟨-, -, -, -, -, rfl⟩ | ⟨-, -, -, rfl⟩ | ⟨-, -, rfl⟩ := restoreStep_cases h <;>
      exact Or.inl rfl
  | bpf h => exact bpfMove_attached h

theorem held_signal (hpc : l.pc.isAttached = true) (hatt : l.attached = true) (sig : Sig) :
    (¬ Detaches l (.signal sig) ∧ (signalStep l sig).attached = true ∧
      (signalStep l sig).pc.isAttached = true) ∨
    (Detaches l (.signal sig) ∧ (signalStep l sig).pc.isEnd = true) := by
  unfold signalStep
  by_cases hhandles : l.handles sig = true
  · rw [if_pos hhandles]
    exact Or.inl ⟨by simp [Detaches, hhandles], hatt, hpc⟩
  · rw [if_neg hhandles]
    exact Or.inr ⟨by simpa [Detaches] using hhandles, rfl⟩

/-- An attached `main` keeps its link until one of the calls that give it up. -/
theorem held_step (hpc : l.pc.isAttached = true) (hatt : l.attached = true)
    (hinterval : o.interval = false) (hpersist : o.persist = true)
    (h : mainStep o n l e = some l') :
    (¬ Detaches l e ∧ l'.attached = true ∧ l'.pc.isAttached = true) ∨
      (Detaches l e ∧ l'.pc.isEnd = true) := by
  cases mainStep_move h with
  | signal sig _ => exact held_signal hpc hatt sig
  | resolve hl | save _ hl | apply _ hl | restore _ _ hl => simp [hl, Pc.isAttached] at hpc
  | bpf h =>
    cases h with
    | polled hl h =>
      obtain ⟨timeUp, ejected, memory, rfl, ⟨-, rfl⟩ | ⟨-, hstays⟩⟩ := pollStep_cases h
      · exact Or.inl ⟨id, hatt, rfl⟩
      · rw [hinterval] at hstays
        obtain ⟨hno, -⟩ | ⟨hno, -⟩ | ⟨-, rfl⟩ := hstays
        · simp at hno
        · simp at hno
        · exact Or.inl ⟨id, hatt, hpc⟩
    | stats hl => exact Or.inl ⟨by simp [Detaches, hl], hatt, rfl⟩
    | statsFail hl => exact Or.inr ⟨hl, rfl⟩
    | detached hl => exact Or.inr ⟨hl, by simp [hpersist, Pc.isEnd]⟩
    | fails hl => rcases hl with hl | hl | hl <;> simp [hl, Pc.isAttached] at hpc
    | _ => simp_all [Pc.isAttached]

theorem Pc.not_end_of_attached {pc : Pc} (h : pc.isAttached = true) : pc.isEnd = false := by
  revert h
  cases pc <;> simp [Pc.isAttached, Pc.isEnd]

end Link

end FakeBigLittle
