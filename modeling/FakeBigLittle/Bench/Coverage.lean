import FakeBigLittle.Bench.Proofs
import FakeBigLittle.Runs

/-!
# What a record with `ok` says

`e3_one` looks at the build and at the pinger when it decides `ok`, and not at bls. When
the scheduler leaves, or is not there yet, nothing in the record says so.
-/

namespace FakeBigLittle

open Runs CString

namespace Bench

/-! ## The invariant -/

/-- The scheduler is enabled only while bls holds its link. -/
structure LinkInv (s : E3) : Prop where
  before : s.pc = .prepare → s.bls = none ∧ s.scx = .disabled
  held : ∀ p, s.bls = some p → p.main.attached = true →
    p.main.pc.isAttached = true ∨ p.main.pc.isEnd = true
  enabled : s.scx = .enabled → ∃ p, s.bls = some p ∧ p.ended = false ∧ p.main.attached = true

section Steps

variable {m : E3Setup} {s t : E3}

/-- A process that runs and holds the link is at one of the calls behind the attach. -/
theorem LinkInv.isAttached (h : LinkInv s) {p : Proc} (hp : s.bls = some p)
    (hrun : p.ended = false) (hatt : p.main.attached = true) : p.main.pc.isAttached = true := by
  rcases h.held p hp hatt with hpc | hend
  · exact hpc
  · rw [(Proc.ended_eq_false.mp hrun).2] at hend
    simp at hend

theorem link_blsTo {p : Proc} {e : LoaderEvent} {main : Loader} (h : LinkInv s)
    (hp : s.bls = some p) (hrun : p.ended = false)
    (hstep : mainStep (m.bench.blsOptions m.factors) m.nrCpus p.main e = some main) :
    LinkInv (s.blsTo p main) := by
  have hkeep : p.main.attached = true →
      (main.attached = true ∧ main.pc.isAttached = true) ∨ main.pc.isEnd = true := by
    intro hatt
    rcases held_step (h.isAttached hp hrun hatt) hatt rfl rfl hstep with ⟨-, hyes⟩ | ⟨-, hend⟩
    · exact Or.inl hyes
    · exact Or.inr hend
  refine ⟨fun hpc => ?_, fun q hq hatt => ?_, fun henabled => ?_⟩
  · rw [(h.before hpc).1] at hp
    simp at hp
  · obtain rfl := Option.some.inj hq
    rcases mainStep_attached hstep with hsame | ⟨-, hloop⟩ | ⟨-, hno⟩
    · rcases hkeep (hsame ▸ hatt) with ⟨-, hpc⟩ | hend
      · exact Or.inl hpc
      · exact Or.inr hend
    · left
      simp only [hloop, Pc.isAttached]
    · rw [hno] at hatt
      simp at hatt
  · refine ⟨_, rfl, ?_⟩
    simp only [E3.blsTo] at henabled
    have hend : main.pc.isEnd = false := by
      by_contra hend
      rw [scxAfter_end (by simpa using hend)] at henabled
      simp at henabled
    refine ⟨Proc.ended_eq_false.mpr ⟨(Proc.ended_eq_false.mp hrun).1, hend⟩, ?_⟩
    by_contra hno
    -- Without the link the state could only be the one before, and then bls held the link.
    simp only [scxAfter, hend, hno, Bool.false_eq_true, if_false] at henabled
    split_ifs at henabled
    obtain ⟨q, hq, -, hqatt⟩ := h.enabled henabled
    obtain rfl : p = q := Option.some.inj (hp.symm.trans hq)
    rcases hkeep hqatt with ⟨hatt, -⟩ | hend'
    · exact hno hatt
    · rw [hend] at hend'
      simp at hend'

theorem link_kill {p : Proc} (h : LinkInv s) (hp : s.bls = some p) : LinkInv (s.kill p) := by
  unfold E3.kill
  split_ifs with hend
  · exact h
  · refine ⟨fun hpc => ?_, fun q hq => ?_, by simp⟩
    · rw [(h.before hpc).1] at hp
      simp at hp
    · obtain rfl := Option.some.inj hq
      exact h.held p hp

theorem linkInv_of_eq {u : E3} (hpc : t.pc ≠ .prepare) (hu : LinkInv u) (hbls : t.bls = u.bls)
    (hscx : t.scx = u.scx) : LinkInv t :=
  ⟨fun hp => absurd hp hpc, fun p hp => hu.held p (hbls ▸ hp),
    fun he => by rw [hbls]; exact hu.enabled (hscx ▸ he)⟩

theorem link_bench {e : BenchEvent} (h : LinkInv s) (hstep : benchStep m s e = some t) :
    LinkInv t := by
  obtain ⟨hpc, hmove, -⟩ := benchStep_cases hstep
  cases hmove with
  | same hbls hscx => exact linkInv_of_eq hpc h hbls hscx
  | popen hprep hbls hscx =>
    refine ⟨fun hp => absurd hp hpc, fun p hp hatt => ?_, fun he => ?_⟩
    · obtain rfl := Option.some.inj (hbls.symm.trans hp)
      rw [m.start.attached] at hatt
      simp at hatt
    · rw [hscx, (h.before hprep).2] at he
      simp at he
  | kill p hp hbls hscx => exact linkInv_of_eq hpc (link_kill h hp) hbls hscx
  | term p hp hrun hbls hscx =>
    have hend := (Proc.ended_eq_false.mp hrun).2
    exact linkInv_of_eq hpc (link_blsTo (m := m) h hp hrun (mainStep_signal hend .term)) hbls hscx

theorem link_move {e : E3Event} (h : LinkInv s) (hstep : e3Move m s e = some t) :
    LinkInv t := by
  cases e with
  | bench e => exact link_bench h hstep
  | bls e =>
    obtain ⟨p, main, hp, hrun, hmain, rfl⟩ := e3Move_bls hstep
    exact link_blsTo h hp hrun hmain
  | blsDies =>
    obtain ⟨p, hp, -, rfl⟩ := e3Move_blsDies hstep
    exact link_kill h hp
  | enabling =>
    obtain ⟨hscx, rfl⟩ := e3Move_enabling hstep
    refine ⟨fun hpc => ?_, h.held, by simp⟩
    unfold e3Move at hstep
    simp [(h.before hpc).1] at hstep
  | ejecting =>
    obtain ⟨hscx, rfl⟩ := e3Move_ejecting hstep
    refine ⟨fun hpc => ?_, h.held, by simp⟩
    rw [(h.before hpc).2] at hscx
    simp at hscx
  | ejected =>
    obtain ⟨-, rfl⟩ := e3Move_ejected hstep
    exact ⟨fun hpc => ⟨(h.before hpc).1, rfl⟩, h.held, by simp⟩

/-! ## When the scheduler leaves -/

/-- The step takes the scheduler away. -/
def Leaves (s : E3) : E3Event → Prop
  | .ejecting | .blsDies => True
  | .bls e => ∃ p, s.bls = some p ∧ Detaches p.main e
  | _ => False

theorem enabled_move {e : E3Event} (h : LinkInv s) (hscx : s.scx = .enabled)
    (hpc : s.pc = .build) (hstep : e3Move m s e = some t) :
    t.scx = .enabled ↔ ¬ Leaves s e := by
  obtain ⟨p, hp, hrun, hatt⟩ := h.enabled hscx
  cases e with
  | bench e =>
    refine ⟨fun _ => id, fun _ => ?_⟩
    obtain ⟨-, -, hmeasure⟩ := benchStep_cases hstep
    cases hmeasure with
    | start hpc' => simp [hpc] at hpc'
    | built _ _ hsame _ => exact hsame.trans hscx
    | other hno => exact absurd hpc hno
  | bls e =>
    obtain ⟨q, main, hq, -, hmain, rfl⟩ := e3Move_bls hstep
    obtain rfl : p = q := Option.some.inj (hp.symm.trans hq)
    have hleaves : Leaves s (.bls e) ↔ Detaches p.main e := by
      refine ⟨fun ⟨r, hr, hd⟩ => ?_, fun hd => ⟨p, hp, hd⟩⟩
      rwa [Option.some.inj (hp.symm.trans hr)]
    rw [hleaves]
    rcases held_step (h.isAttached hp hrun hatt) hatt rfl rfl hmain with
      ⟨hno, hatt', hpc'⟩ | ⟨hyes, hend⟩
    · simp [E3.blsTo, scxAfter_held hatt hatt' (Pc.not_end_of_attached hpc'), hscx, hno]
    · simp [E3.blsTo, scxAfter_end hend, hyes]
  | blsDies =>
    obtain ⟨q, hq, hrun', rfl⟩ := e3Move_blsDies hstep
    simp [E3.kill, hrun', Leaves]
  | enabling =>
    obtain ⟨hdis, -⟩ := e3Move_enabling hstep
    simp [hscx] at hdis
  | ejecting =>
    obtain ⟨-, rfl⟩ := e3Move_ejecting hstep
    simp [Leaves]
  | ejected =>
    obtain ⟨hdis, -⟩ := e3Move_ejected hstep
    simp [hscx] at hdis

/-! ## Runs -/

structure E3Inv (s : E3) : Prop where
  link : LinkInv s
  building : s.pc = .build → s.covered = true → s.scx = .enabled

/-- A build that is or was measured ran under the scheduler. -/
def Covered (s : E3) : Prop := s.pc.isMeasured = true → s.covered = true

/-- The build begins under the scheduler, and nothing takes the scheduler away while it runs. -/
def KeepsScx (s : E3) (e : E3Event) : Prop :=
  match s.pc, e with
  | .startBuild, .bench .go => s.scx = .enabled
  | .build, e => ¬ Leaves s e
  | _, _ => True

instance (s : E3) (e : E3Event) : Decidable (Leaves s e) :=
  match e with
  | .ejecting | .blsDies => inferInstanceAs (Decidable True)
  | .bls e =>
    match h : s.bls with
    | none => isFalse fun ⟨_, hp, _⟩ => by rw [h] at hp; simp at hp
    | some p =>
      decidable_of_iff (Detaches p.main e)
        ⟨fun hd => ⟨p, h, hd⟩, fun ⟨_, hq, hd⟩ => Option.some.inj (h.symm.trans hq) ▸ hd⟩
  | .bench _ | .enabling | .ejected => inferInstanceAs (Decidable False)

instance (s : E3) (e : E3Event) : Decidable (KeepsScx s e) := by
  unfold KeepsScx
  split <;> infer_instance

theorem link_watch (h : LinkInv t) : LinkInv (watch s t) := by
  unfold watch
  split_ifs
  · exact ⟨h.before, h.held, h.enabled⟩
  · exact h

theorem covered_build {e : E3Event} (h : E3Inv s) (hcov : Covered s) (hpc : s.pc = .build)
    (hmove : e3Move m s e = some t) :
    (watch s t).covered = (t.scx == .enabled) ∧ (t.scx = .enabled ↔ ¬ Leaves s e) := by
  have hyes : s.covered = true := hcov (by rw [hpc]; rfl)
  refine ⟨?_, enabled_move h.link (h.building hpc hyes) hpc hmove⟩
  simp [watch, hpc, hyes]

theorem keepsScx_of_other {e : E3Event} (hpc : s.pc ≠ .build)
    (hgo : s.pc = .startBuild → e ≠ .bench .go) : KeepsScx s e := by
  unfold KeepsScx
  split
  case h_1 hstart => exact absurd rfl (hgo hstart)
  case h_2 hbuild => exact absurd hbuild hpc
  case h_3 => trivial

theorem covered_other {e : E3Event} (hcov : Covered s) (hpc : s.pc ≠ .build)
    (hmove : e3Move m s e = some t) :
    (t.pc = .build → t.covered = true → t.scx = .enabled) ∧ (Covered t ↔ KeepsScx s e) := by
  by_cases hbench : ∃ b, e = .bench b
  · obtain ⟨b, rfl⟩ := hbench
    obtain ⟨-, -, hmeasure⟩ := benchStep_cases hmove
    cases hmeasure with
    | start hstart hbuild hscx hcovered =>
      have hkeeps : KeepsScx s (.bench .go) ↔ s.scx = .enabled := by simp only [KeepsScx, hstart]
      rw [hkeeps, hscx, hcovered, Covered, hbuild, hcovered, beq_iff_eq]
      exact ⟨fun _ hyes => hyes, fun himp => himp rfl, fun hyes _ => hyes⟩
    | built hbuild => exact absurd hbuild hpc
    | other _ hgo hpc' hmeasured hcovered =>
      refine ⟨fun hbuild => absurd hbuild hpc', fun _ => ?_, fun _ hmeas => ?_⟩
      · exact keepsScx_of_other hpc fun hstart hb => hgo hstart (E3Event.bench.inj hb)
      · rw [hcovered]
        exact hcov (hmeasured hmeas)
  · have he : ∀ b, e ≠ .bench b := fun b hb => hbench ⟨b, hb⟩
    obtain ⟨hsame, hcovered⟩ := other_move he hmove
    rw [Covered, hsame, hcovered]
    exact ⟨fun hbuild => absurd hbuild hpc, fun _ => keepsScx_of_other hpc fun _ => he .go,
      fun _ => hcov⟩

theorem covered_step {e : E3Event} (h : E3Inv s) (hcov : Covered s)
    (hstep : e3Step m s e = some t) : E3Inv t ∧ (Covered t ↔ KeepsScx s e) := by
  obtain ⟨u, hmove, rfl⟩ := Option.map_eq_some_iff.mp hstep
  have hlink := link_watch (s := s) (link_move h.link hmove)
  by_cases hpc : s.pc = .build
  · obtain ⟨hcovered, hleaves⟩ := covered_build h hcov hpc hmove
    have hkeeps : KeepsScx s e ↔ ¬ Leaves s e := by simp only [KeepsScx, hpc]
    have hu : (watch s u).pc = u.pc ∧ (watch s u).scx = u.scx := by simp [watch, hpc]
    refine ⟨⟨hlink, fun _ hyes => ?_⟩, ?_⟩
    · rw [hu.2]
      simpa [hcovered] using hyes
    · rw [hkeeps, ← hleaves]
      unfold Covered
      rw [hcovered, hu.1, beq_iff_eq]
      refine ⟨fun himp => ?_, fun hyes _ => hyes⟩
      by_contra hno
      have hgone : Leaves s e := by
        by_contra hstay
        exact hno (hleaves.mpr hstay)
      have hsame : u.pc = s.pc := by
        refine (other_move (fun b hb => ?_) hmove).1
        rw [hb] at hgone
        exact hgone
      rw [hsame, hpc] at himp
      exact hno (himp rfl)
  · have hwatch : watch s u = u := by simp [watch, hpc]
    rw [hwatch] at hlink ⊢
    obtain ⟨hbuilding, hiff⟩ := covered_other hcov hpc hmove
    exact ⟨⟨hlink, hbuilding⟩, hiff⟩

/-- A forbidden step leaves a build that is running uncovered. -/
theorem uncovered_step {e : E3Event} (h : E3Inv s) (hcov : Covered s)
    (hstep : e3Step m s e = some t) (hno : ¬ KeepsScx s e) :
    t.pc = .build ∧ t.covered = false := by
  have huncovered : ¬ Covered t := fun hyes => hno ((covered_step h hcov hstep).2.mp hyes)
  obtain ⟨hmeas, hfalse⟩ := Classical.not_imp.mp huncovered
  refine ⟨?_, by simpa using hfalse⟩
  obtain ⟨u, hmove, rfl⟩ := Option.map_eq_some_iff.mp hstep
  by_cases hpc : s.pc = .build
  · have hgone : Leaves s e := by simpa [KeepsScx, hpc] using hno
    have hsame := (other_move (fun b hb => by rw [hb] at hgone; exact hgone) hmove).1
    simp only [watch, if_pos hpc]
    exact hsame.trans hpc
  · have hwatch : watch s u = u := by simp [watch, hpc]
    rw [hwatch]
    obtain ⟨hstart, hgo⟩ : s.pc = .startBuild ∧ e = .bench .go := by
      by_contra hother
      exact hno (keepsScx_of_other hpc fun hstart hgo => hother ⟨hstart, hgo⟩)
    subst hgo
    obtain ⟨-, -, hmeasure⟩ := benchStep_cases hmove
    cases hmeasure with
    | start _ hbuild => exact hbuild
    | built hbuild => exact absurd hbuild hpc
    | other _ hne => exact absurd rfl (hne hstart)

/-! ## Nothing is noticed -/

def energyObj : Obj := { pkgJ := true, exitCode := some 0 }

def pingerObj : Obj := { wakeUsP50 := true }

theorem e3Step_of_move {e : E3Event} (hpc : s.pc ≠ .build) (h : e3Move m s e = some t) :
    e3Step m s e = some t := by
  rw [e3Step, h]
  simp [watch, hpc]

/-- What the end of bls leaves as it is. -/
def SameResult (s t : E3) : Prop :=
  t.returncode = s.returncode ∧ t.objs = s.objs ∧ t.covered = s.covered

theorem timeout_ends {p : Proc} (hpc : s.pc = .blsOut) (hp : s.bls = some p) :
    ∃ t, e3Step m s (.bench .timeUp) = some t ∧ t.pc = .record ∧ SameResult s t := by
  refine ⟨{ s.kill p with pc := .record }, e3Step_of_move (by simp [hpc]) ?_, rfl, ?_⟩
  · simp [e3Move, benchStep, blsEndStep, hpc, hp]
  · unfold SameResult E3.kill
    split_ifs <;> exact ⟨rfl, rfl, rfl⟩

/-- The harness gets bls out of its way, whatever state bls is in. -/
theorem bls_ended (m : E3Setup) (hpc : s.pc = .stopBls) :
    ∃ fs t, run (e3Step m) s fs = some t ∧ t.pc = .record ∧ SameResult s t := by
  cases hbls : s.bls with
  | none =>
    refine ⟨[.bench .go], { s with pc := .record }, ?_, rfl, rfl, rfl, rfl⟩
    have hstep : e3Step m s (.bench .go) = some { s with pc := .record } :=
      e3Step_of_move (by simp [hpc]) (by simp [e3Move, benchStep, hpc, hbls])
    simp [run_cons, hstep]
  | some p =>
    obtain ⟨u, q, hstep, hupc, hq, hsame⟩ : ∃ u q, e3Step m s (.bench .go) = some u ∧
        u.pc = .blsOut ∧ u.bls = some q ∧ SameResult s u := by
      by_cases hend : p.ended = true
      · exact ⟨{ s with pc := .blsOut }, p, e3Step_of_move (by simp [hpc])
          (by simp [e3Move, benchStep, blsEndStep, hpc, hbls, hend]), rfl, hbls, rfl, rfl, rfl⟩
      · exact ⟨{ s.blsTo p (signalStep p.main .term) with pc := .blsOut }, _,
          e3Step_of_move (by simp [hpc])
            (by simp [e3Move, benchStep, blsEndStep, hpc, hbls, hend]), rfl, rfl, rfl, rfl, rfl⟩
    obtain ⟨t, hstep', htpc, hsame'⟩ := timeout_ends (m := m) hupc hq
    refine ⟨[.bench .go, .bench .timeUp], t, ?_, htpc, hsame'.1.trans hsame.1,
      hsame'.2.1.trans hsame.2.1, hsame'.2.2.trans hsame.2.2⟩
    simp [run_cons, hstep, hstep']

/-- A build that went well is recorded as `ok`, covered or not. -/
theorem recorded_ok (m : E3Setup) (hpc : s.pc = .build) (hcov : s.covered = false) :
    ∃ fs t, run (e3Step m) s fs = some t ∧ t.pc = .recorded true ∧ t.covered = false := by
  let u : E3 := { s with
    pc := .stopBls, returncode := 0, objs := [energyObj] ++ [pingerObj], covered := false }
  have hbuilt : run (e3Step m) s [.bench (.built 0 [energyObj]), .bench (.pinged [pingerObj])] =
      some u := by
    simp [run_cons, e3Step, e3Move, benchStep, watch, hpc, hcov, u]
  obtain ⟨fs, t, hrun, htpc, hcode, hobjs, hcovered⟩ := bls_ended m (s := u) rfl
  refine ⟨[.bench (.built 0 [energyObj]), .bench (.pinged [pingerObj])] ++ (fs ++ [.bench .go]),
    { t with pc := .recorded true }, ?_, rfl, hcovered⟩
  have hwell : okOf 0 (classifyJson ([energyObj] ++ [pingerObj])) = true := by decide
  have hok : okOf t.returncode (classifyJson t.objs) = true := by
    rw [hcode, hobjs]
    exact hwell
  have hlast : e3Step m t (.bench .go) = some { t with pc := .recorded true } :=
    e3Step_of_move (by simp [htpc]) (by simp [e3Move, benchStep, htpc, hok])
  rw [run_append, hbuilt, Option.bind_some, run_append, hrun, Option.bind_some, run_cons, hlast]
  rfl

/-! ## The record -/

/-- `ok` says that the whole build ran under the scheduler. -/
def OkMeansCovered (s : E3) : Prop := s.pc = .recorded true → s.covered = true

/-- **When `ok` can be trusted.** In a run in which the build begins under the scheduler and
nothing takes the scheduler away while it runs, a record with `ok` was measured under the
scheduler from its first to its last moment. Any other run can end in a record with `ok`
that was not. -/
theorem ok_means_covered (m : E3Setup) (s : E3) (hs : E3Init s) (es : List E3Event) :
    (StepsMeet (e3Step m) KeepsScx s es → StatesMeet (e3Step m) OkMeansCovered s es) ∧
    (¬ StepsMeet (e3Step m) KeepsScx s es → ∃ k fs t,
      run (e3Step m) s (es.take k ++ fs) = some t ∧ t.pc = .recorded true ∧
        t.covered = false) := by
  have hinv : E3Inv s := by
    refine ⟨⟨fun _ => ⟨hs.bls, hs.scx⟩, by simp [hs.bls], by simp [hs.scx]⟩, by simp [hs.pc]⟩
  have hcov : Covered s := by simp [Covered, hs.pc, E3Pc.isMeasured]
  constructor
  · intro hkeeps
    refine StatesMeet.imp (P := Covered) (Q := OkMeansCovered)
      (fun t ht hok => ht (by rw [hok]; rfl)) es ?_
    exact (statesMeet_iff (fun _ _ _ h hc _ hstep => covered_step h hc hstep) es hinv hcov
      (stepsMeet_true _ _ _)).mpr hkeeps
  · intro hno
    obtain ⟨k, t, hrun, hpc, hfalse⟩ := exists_of_not_stepsMeet
      (I := fun s => E3Inv s ∧ Covered s) (B := fun t => t.pc = .build ∧ t.covered = false)
      (fun _ _ _ h hstep hC =>
        let hnext := covered_step h.1 h.2 hstep
        ⟨hnext.1, hnext.2.mpr hC⟩)
      (fun _ _ _ h hstep hC => uncovered_step h.1 h.2 hstep hC) es ⟨hinv, hcov⟩ hno
    obtain ⟨fs, u, hfs, hok, hu⟩ := recorded_ok m hpc hfalse
    exact ⟨k, fs, u, by rw [run_append, hrun]; exact hfs, hok, hu⟩

end Steps

/-! ## Two CPUs, one of them LITTLE -/

def pairSetup : E3Setup where
  bench := ⟨[0], [1]⟩
  factors := ⟨.scx, .partitioned, true⟩
  nrCpus := 2
  loader := loaderStart
  start := loaderStart_start

def e3Start : E3 where
  pc := .prepare
  bls := none
  scx := .disabled
  ejected := false
  returncode := 0
  objs := []
  covered := false

/-- bls attaches, and the build starts. -/
def upToBuild : List E3Event :=
  [.bench .go, .bls (.cores fun cpu => cpu), .bls (.read true none), .bls (.read true none),
    .bls .ok, .bls .ok, .bls .ok, .bls .ok, .bls .ok, .bls .ok, .bls .ok, .bls .ok, .enabling,
    .bls .ok, .bench .go, .bench .go, .bench .go, .bench .go, .bench .go]

/-- bls is stopped when the build is over. -/
def stopped : List E3Event :=
  [.bls (.poll false false true), .bench (.built 0 [energyObj]), .bench (.pinged [pingerObj]),
    .bench .go, .bls (.poll false false true), .bls .ok, .bls .ok, .bench .go, .bench .go]

/-- The watchdog ejects the scheduler in the middle of the build, and bls exits with 0. -/
def ejectedMidway : List E3Event :=
  [.ejecting, .ejected, .bls (.poll false true true), .bls .ok, .bls .ok,
    .bench (.built 0 [energyObj]), .bench (.pinged [pingerObj]), .bench .go, .bench .go,
    .bench .go]

theorem e3Start_init : E3Init e3Start := ⟨rfl, rfl, rfl⟩

/-- A build that bls outlives. -/
theorem ok_means_covered_pair :
    StatesMeet (e3Step pairSetup) OkMeansCovered e3Start (upToBuild ++ stopped) ∧
      (run (e3Step pairSetup) e3Start (upToBuild ++ stopped)).map (fun s => (s.pc, s.covered)) =
        some (.recorded true, true) :=
  ⟨(ok_means_covered pairSetup e3Start e3Start_init (upToBuild ++ stopped)).1 (by decide),
    by decide⟩

/-- The watchdog ejects the scheduler in the middle of the build. The record says `ok`. -/
theorem ok_means_covered_fails : ∃ s,
    run (e3Step pairSetup) e3Start (upToBuild ++ ejectedMidway) = some s ∧
      s.bls.map (·.main.pc) = some (.exited 0) ∧ ¬ OkMeansCovered s := by
  have hrun : (run (e3Step pairSetup) e3Start (upToBuild ++ ejectedMidway)).map
      (fun s => (s.pc, s.covered, s.bls.map (·.main.pc))) =
        some (.recorded true, false, some (.exited 0)) := by
    decide
  obtain ⟨s, hs, heq⟩ := Option.map_eq_some_iff.mp hrun
  simp only [Prod.mk.injEq] at heq
  obtain ⟨hpc, hcovered, hexit⟩ := heq
  refine ⟨s, hs, hexit, fun hok => ?_⟩
  rw [hok hpc] at hcovered
  simp at hcovered

end Bench

end FakeBigLittle
