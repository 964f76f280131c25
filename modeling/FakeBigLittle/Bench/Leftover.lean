import FakeBigLittle.Bench.Coverage

/-!
# What an arm leaves running

`e3_one` starts bls and the pinger, and stops them by calls in a row. Only the timeout of bls and
an attach that failed have a handler.
-/

namespace FakeBigLittle

open Runs CString

namespace Bench

/-! ## A run with the pinger -/

inductive PingerState where
  | notStarted
  | running
  | ended
  deriving DecidableEq

structure Live where
  e3 : E3
  pinger : PingerState

inductive LiveEvent where
  | e3 (e : E3Event)
  /-- the pinger ends by itself, or by its SIGTERM -/
  | pingerEnds
  /-- `record` raises where the scheduler failed to attach -/
  | recordRaises

/-- `Popen` starts the pinger, and a `communicate` that returns has seen its end. -/
def pingerAfter (pc pc' : E3Pc) (pinger : PingerState) : PingerState :=
  if pc = .pinger ∧ pc' = .startBuild then .running
  else if pc = .stopPinger ∧ pc' = .stopBls then .ended
  else pinger

def liveStep (m : E3Setup) (s : Live) : LiveEvent → Option Live
  | .e3 e => (e3Step m s.e3 e).map fun t => ⟨t, pingerAfter s.e3.pc t.pc s.pinger⟩
  | .pingerEnds => if s.pinger = .running then some { s with pinger := .ended } else none
  | .recordRaises =>
    match s.e3.bls with
    | none => none
    | some p =>
      if s.e3.pc = .waitPoll then some { s with e3 := { s.e3.kill p with pc := .raised } } else none

structure LiveInit (s : Live) : Prop where
  e3 : E3Init s.e3
  pinger : s.pinger = .notStarted

/-! ## What is left -/

def E3Pc.isOver : E3Pc → Bool
  | .recorded _ | .raised => true
  | _ => false

/-- bls has been started, and nothing has waited for its end. -/
def E3Pc.holdsBls : E3Pc → Bool
  | .waitPoll | .waitState | .settle | .pinger | .startBuild | .build | .stopPinger | .stopBls
  | .blsOut => true
  | _ => false

/-- The same of the pinger. -/
def E3Pc.holdsPinger : E3Pc → Bool
  | .startBuild | .build | .stopPinger => true
  | _ => false

def blsEnded (s : Live) : Bool := s.e3.bls.all Proc.ended

/-- Neither of the processes that were started is alive, and no scheduler of them. -/
structure NothingLeft (s : Live) : Prop where
  bls : blsEnded s = true
  pinger : s.pinger ≠ .running
  scx : s.e3.scx ≠ .enabled

/-- Where `e3_one` has returned or raised, nothing is left. -/
def CleanEnd (s : Live) : Prop := s.e3.pc.isOver = true → NothingLeft s

/-- An exception that nothing in `e3_one` catches. -/
def raises (s : Live) : LiveEvent → Bool
  | .e3 (.bench .raise) => true
  | .e3 (.bench .timeUp) => s.e3.pc = .stopPinger
  | _ => false

/-- Nothing raises between the start of bls and its end, or between those of the pinger, while
they run. -/
def Guarded (s : Live) (e : LiveEvent) : Prop :=
  raises s e = true →
    (s.e3.pc.holdsBls = true → blsEnded s = true) ∧
    (s.e3.pc.holdsPinger = true → s.pinger ≠ .running)

instance (s : Live) (e : LiveEvent) : Decidable (Guarded s e) := by
  unfold Guarded
  infer_instance

/-! ## Steps -/

section Steps

variable {m : E3Setup} {s t : E3}

/-- The pinger is not forgotten on the way. -/
def KeepsPinger (pc pc' : E3Pc) : Prop :=
  pc'.holdsPinger = true ∨ (pc = .stopPinger ∧ pc' = .stopBls) ∨
    (pc.holdsPinger = false ∧ pc' ≠ .startBuild)

/-- Where a call of the harness leads. -/
inductive Next (s t : E3) (e : BenchEvent) : Prop where
  | raised (he : e = .raise ∨ e = .timeUp ∧ s.pc = .stopPinger) (hpc : s.pc.isOver = false)
      (ht : t = { s with pc := .raised })
  | unattached (p : Proc) (hp : s.bls = some p) (hpc : s.pc = .waitPoll)
      (ht : t = { s.kill p with pc := .recorded false })
  | recorded (ok : Bool) (hpc : s.pc = .record) (ht : t = { s with pc := .recorded ok })
  | goes (hpc : t.pc.isOver = false) (hkeeps : KeepsPinger s.pc t.pc)
      (hrecord : t.pc = .record → ∀ p, t.bls = some p → p.ended = true)

theorem kill_ended (s : E3) (p : Proc) (hp : s.bls = some p) :
    ∀ q, (s.kill p).bls = some q → q.ended = true := by
  intro q hq
  unfold E3.kill at hq
  split_ifs at hq with hend
  · obtain rfl := Option.some.inj (hp.symm.trans hq)
    exact hend
  · obtain rfl := Option.some.inj hq
    rfl

theorem waitStep_next {p : Proc} {e : BenchEvent} (hp : s.bls = some p)
    (hpc : s.pc = .waitPoll ∨ s.pc = .waitState) (h : waitStep s p e = some t) : Next s t e := by
  have hpinger : s.pc.holdsPinger = false := by
    rcases hpc with hpc | hpc <;> rw [hpc] <;> rfl
  have hgoes : ∀ pc : E3Pc, pc.isOver = false → pc ≠ .startBuild → pc ≠ .record →
      Next s { s with pc := pc } e := fun pc hover hstart hrecord =>
    .goes hover (Or.inr (Or.inr ⟨hpinger, hstart⟩)) fun heq => absurd heq hrecord
  unfold waitStep at h
  split at h
  · split_ifs at h with hpoll
    exact .unattached p hp hpoll (Option.some.inj h).symm
  · split_ifs at h
    obtain rfl := Option.some.inj h
    exact hgoes .waitPoll rfl (by simp) (by simp)
  · split_ifs at h with hpoll hend hscx
    · exact .unattached p hp hpoll (Option.some.inj h).symm
    · obtain rfl := Option.some.inj h
      exact hgoes .waitState rfl (by simp) (by simp)
    · obtain rfl := Option.some.inj h
      exact hgoes .waitPoll rfl (by simp) (by simp)
    · obtain rfl := Option.some.inj h
      exact hgoes .settle rfl (by simp) (by simp)
  · simp at h

theorem blsEndStep_next {p : Proc} {e : BenchEvent} (hp : s.bls = some p)
    (hpc : s.pc = .stopBls ∨ s.pc = .blsOut) (h : blsEndStep s p e = some t) : Next s t e := by
  have hpinger : s.pc.holdsPinger = false := by
    rcases hpc with hpc | hpc <;> rw [hpc] <;> rfl
  unfold blsEndStep at h
  split at h
  · split_ifs at h with hstop hend hend
    · obtain rfl := Option.some.inj h
      exact .goes rfl (Or.inr (Or.inr ⟨hpinger, by simp⟩)) (by simp)
    · obtain rfl := Option.some.inj h
      exact .goes rfl (Or.inr (Or.inr ⟨hpinger, by simp⟩)) (by simp)
    · obtain rfl := Option.some.inj h
      refine .goes rfl (Or.inr (Or.inr ⟨hpinger, by simp⟩)) fun _ q hq => ?_
      obtain rfl := Option.some.inj (hp.symm.trans hq)
      exact hend
  · split_ifs at h
    obtain rfl := Option.some.inj h
    exact .goes rfl (Or.inr (Or.inr ⟨hpinger, by simp⟩)) fun _ => kill_ended s p hp
  · simp at h

theorem benchStep_live {e : BenchEvent} (h : benchStep m s e = some t) : s.pc.isOver = false := by
  cases hpc : s.pc with
  | recorded ok => simp [benchStep, hpc] at h
  | raised => simp [benchStep, hpc] at h
  | _ => rfl

theorem benchStep_next {e : BenchEvent} (h : benchStep m s e = some t) : Next s t e := by
  have hlive := benchStep_live h
  unfold benchStep at h
  split at h
  case h_1 | h_2 => simp at h
  case h_3 => exact .raised (Or.inl rfl) hlive (Option.some.inj h).symm
  case h_4 hpc =>
    split_ifs at h <;> obtain rfl := Option.some.inj h
    · exact .goes rfl (Or.inr (Or.inr ⟨by rw [hpc]; rfl, by simp⟩)) (by simp)
    · exact .goes rfl (Or.inr (Or.inr ⟨by rw [hpc]; rfl, by simp⟩)) (by simp)
  case h_5 p hpc hp _ => exact waitStep_next hp (Or.inl hpc) h
  case h_6 p hpc hp _ => exact waitStep_next hp (Or.inr hpc) h
  case h_12 hpc =>
    exact .raised (Or.inr ⟨rfl, hpc⟩) hlive (Option.some.inj h).symm
  case h_13 hpc hbls =>
    obtain rfl := Option.some.inj h
    refine .goes rfl (Or.inr (Or.inr ⟨by rw [hpc]; rfl, by simp⟩)) fun _ p hp => ?_
    simp [hbls] at hp
  case h_14 p hpc hp _ => exact blsEndStep_next hp (Or.inl hpc) h
  case h_15 p hpc hp _ => exact blsEndStep_next hp (Or.inr hpc) h
  case h_16 hpc => exact .recorded _ hpc (Option.some.inj h).symm
  case h_17 => simp at h
  all_goals
    rename_i hpc
    obtain rfl := Option.some.inj h
    refine .goes rfl ?_ (by simp)
    simp [KeepsPinger, hpc, E3Pc.holdsPinger]

theorem benchStep_raises {e : BenchEvent} (h : benchStep m s e = some t)
    (he : e = .raise ∨ e = .timeUp ∧ s.pc = .stopPinger) : t.pc = .raised := by
  rcases he with rfl | ⟨rfl, hpc⟩
  · unfold benchStep at h
    split at h <;> simp_all
    all_goals
      obtain rfl := h
      rfl
  · unfold benchStep at h
    simp only [hpc] at h
    obtain rfl := Option.some.inj h
    rfl

end Steps

/-! ## Runs -/

/-- The processes are where the source has them. -/
structure LiveInv (s : Live) : Prop where
  link : LinkInv s.e3
  record : s.e3.pc = .record → blsEnded s = true
  pinger : s.pinger = .running → s.e3.pc.holdsPinger = true ∨ s.e3.pc.isOver = true

section Runs

variable {m : E3Setup} {s t : Live}

theorem blsEnded_iff : blsEnded s = true ↔ ∀ p, s.e3.bls = some p → p.ended = true := by
  unfold blsEnded
  cases s.e3.bls <;> simp

/-- A scheduler is enabled by a bls that runs. -/
theorem nothingLeft_of_ended (hlink : LinkInv s.e3) (hbls : blsEnded s = true)
    (hpinger : s.pinger ≠ .running) : NothingLeft s := by
  refine ⟨hbls, hpinger, fun hscx => ?_⟩
  obtain ⟨p, hp, hrun, -⟩ := hlink.enabled hscx
  rw [blsEnded_iff.mp hbls p hp] at hrun
  exact Bool.noConfusion hrun

theorem LiveInv.pinger_ne (h : LiveInv s) (hholds : s.e3.pc.holdsPinger = false)
    (hover : s.e3.pc.isOver = false) : s.pinger ≠ .running := by
  intro hrun
  rcases h.pinger hrun with hyes | hyes
  · rw [hholds] at hyes
    exact Bool.noConfusion hyes
  · rw [hover] at hyes
    exact Bool.noConfusion hyes

@[simp] theorem watch_pc (s t : E3) : (watch s t).pc = t.pc := by
  unfold watch
  split_ifs <;> rfl

@[simp] theorem watch_bls (s t : E3) : (watch s t).bls = t.bls := by
  unfold watch
  split_ifs <;> rfl

theorem pingerAfter_over {pc pc' : E3Pc} (h : pc'.isOver = true) (pinger : PingerState) :
    pingerAfter pc pc' pinger = pinger := by
  have hstart : pc' ≠ .startBuild := by
    rintro rfl
    exact Bool.noConfusion h
  have hstop : pc' ≠ .stopBls := by
    rintro rfl
    exact Bool.noConfusion h
  unfold pingerAfter
  rw [if_neg fun hboth => hstart hboth.2, if_neg fun hboth => hstop hboth.2]

theorem pingerAfter_keeps {pc pc' : E3Pc} {pinger : PingerState} (hkeeps : KeepsPinger pc pc')
    (hpinger : pinger = .running → pc.holdsPinger = true)
    (hrun : pingerAfter pc pc' pinger = .running) : pc'.holdsPinger = true := by
  rcases hkeeps with hyes | ⟨rfl, rfl⟩ | ⟨hno, hstart⟩
  · exact hyes
  · simp [pingerAfter] at hrun
  · unfold pingerAfter at hrun
    rw [if_neg fun hboth => hstart hboth.2] at hrun
    split_ifs at hrun
    rw [hpinger hrun] at hno
    exact Bool.noConfusion hno

theorem bls_of_not_holds (h : LiveInv s) (hover : s.e3.pc.isOver = false)
    (hholds : s.e3.pc.holdsBls = false) : blsEnded s = true := by
  cases hpc : s.e3.pc with
  | prepare =>
    rw [blsEnded_iff]
    intro p hp
    rw [(h.link.before hpc).1] at hp
    simp at hp
  | record => exact h.record hpc
  | recorded ok | raised =>
    rw [hpc] at hover
    exact Bool.noConfusion hover
  | _ =>
    rw [hpc] at hholds
    exact Bool.noConfusion hholds

theorem liveInv_over (hlink : LinkInv t.e3) (hover : t.e3.pc.isOver = true) : LiveInv t := by
  refine ⟨hlink, fun hpc => ?_, fun _ => Or.inr hover⟩
  rw [hpc] at hover
  exact Bool.noConfusion hover

/-- An end with nothing left. -/
theorem clean_over {e : LiveEvent} (hlink : LinkInv t.e3) (hover : t.e3.pc.isOver = true)
    (hbls : blsEnded t = true) (hpinger : t.pinger ≠ .running) (hallowed : Guarded s e) :
    LiveInv t ∧ (CleanEnd t ↔ Guarded s e) :=
  ⟨liveInv_over hlink hover,
    iff_of_true (fun _ => nothingLeft_of_ended hlink hbls hpinger) hallowed⟩

/-- An exception leaves what it finds. -/
theorem clean_raise {e : LiveEvent} (h : LiveInv s) (hlive : s.e3.pc.isOver = false)
    (hlink : LinkInv t.e3) (hover : t.e3.pc.isOver = true) (hbls : blsEnded t = blsEnded s)
    (hpinger : t.pinger = s.pinger) (hraises : raises s e = true) :
    LiveInv t ∧ (CleanEnd t ↔ Guarded s e) := by
  refine ⟨liveInv_over hlink hover, fun hclean _ => ?_, fun hguard _ => ?_⟩
  · have hnothing := hclean hover
    exact ⟨fun _ => hbls ▸ hnothing.bls, fun _ => hpinger ▸ hnothing.pinger⟩
  · obtain ⟨hheldBls, hheldPinger⟩ := hguard hraises
    apply nothingLeft_of_ended hlink
    · rw [hbls]
      by_cases hholds : s.e3.pc.holdsBls = true
      · exact hheldBls hholds
      · exact bls_of_not_holds h hlive (by simpa using hholds)
    · rw [hpinger]
      by_cases hholds : s.e3.pc.holdsPinger = true
      · exact hheldPinger hholds
      · exact h.pinger_ne (by simpa using hholds) hlive

/-- A call of the harness. -/
theorem clean_bench {e : BenchEvent} {u : E3} (h : LiveInv s) (hlink : LinkInv t.e3)
    (hpc : t.e3.pc = u.pc) (hbls : t.e3.bls = u.bls)
    (hafter : t.pinger = pingerAfter s.e3.pc u.pc s.pinger)
    (hstep : benchStep m s.e3 e = some u) :
    LiveInv t ∧ (CleanEnd t ↔ Guarded s (.e3 (.bench e))) := by
  have hended : (∀ p, u.bls = some p → p.ended = true) → blsEnded t = true := fun hall =>
    blsEnded_iff.mpr (hbls ▸ hall)
  have hsame : u.pc.isOver = true → t.pinger = s.pinger := fun hover =>
    hafter.trans (pingerAfter_over hover s.pinger)
  -- what does not raise is allowed
  have hallowed : u.pc ≠ .raised → Guarded s (.e3 (.bench e)) := by
    intro hno hraises
    refine absurd (benchStep_raises hstep ?_) hno
    cases e with
    | raise => exact Or.inl rfl
    | timeUp => exact Or.inr ⟨rfl, by simpa [raises] using hraises⟩
    | _ => exact Bool.noConfusion hraises
  cases benchStep_next hstep with
  | raised he hlive ht =>
    have hblsEq : blsEnded t = blsEnded s := by
      unfold blsEnded
      rw [hbls, ht]
    have hraises : raises s (.e3 (.bench e)) = true := by
      rcases he with rfl | ⟨rfl, hstop⟩
      · rfl
      · simpa [raises] using hstop
    exact clean_raise h hlive hlink (by rw [hpc, ht]; rfl) hblsEq (hsame (by rw [ht]; rfl)) hraises
  | unattached p hp hwait ht =>
    have hkilled : ∀ q, u.bls = some q → q.ended = true := by
      rw [ht]
      exact kill_ended s.e3 p hp
    have hpinger : t.pinger ≠ .running := by
      rw [hsame (by rw [ht]; rfl)]
      exact h.pinger_ne (by rw [hwait]; rfl) (by rw [hwait]; rfl)
    exact clean_over hlink (by rw [hpc, ht]; rfl) (hended hkilled) hpinger
      (hallowed (by rw [ht]; simp))
  | recorded ok hrecord ht =>
    have hdone : ∀ q, u.bls = some q → q.ended = true := by
      rw [ht]
      exact blsEnded_iff.mp (h.record hrecord)
    have hpinger : t.pinger ≠ .running := by
      rw [hsame (by rw [ht]; rfl)]
      exact h.pinger_ne (by rw [hrecord]; rfl) (by rw [hrecord]; rfl)
    exact clean_over hlink (by rw [hpc, ht]; rfl) (hended hdone) hpinger
      (hallowed (by rw [ht]; simp))
  | goes hgoes hkeeps hrecord =>
    have hover : t.e3.pc.isOver = false := by rw [hpc, hgoes]
    have hheld : s.pinger = .running → s.e3.pc.holdsPinger = true := by
      intro hrun
      refine (h.pinger hrun).resolve_right fun hyes => ?_
      rw [benchStep_live hstep] at hyes
      exact Bool.noConfusion hyes
    refine ⟨⟨hlink, fun hrec => hended (hrecord (hpc ▸ hrec)), fun hrun => Or.inl ?_⟩,
      iff_of_true (fun hyes => ?_) (hallowed ?_)⟩
    · rw [hafter] at hrun
      rw [hpc]
      exact pingerAfter_keeps hkeeps hheld hrun
    · rw [hover] at hyes
      exact Bool.noConfusion hyes
    · intro hraised
      rw [hraised] at hgoes
      exact Bool.noConfusion hgoes

/-- A bls that has ended does not move. -/
theorem other_bls {e : E3Event} {u : E3} (hend : blsEnded s = true) (he : ∀ b, e ≠ .bench b)
    (h : e3Move m s.e3 e = some u) : u.bls = s.e3.bls := by
  cases e with
  | bench b => exact absurd rfl (he b)
  | bls e =>
    obtain ⟨p, -, hp, hrun, -⟩ := e3Move_bls h
    rw [blsEnded_iff.mp hend p hp] at hrun
    exact Bool.noConfusion hrun
  | blsDies =>
    obtain ⟨p, hp, hrun, -⟩ := e3Move_blsDies h
    rw [blsEnded_iff.mp hend p hp] at hrun
    exact Bool.noConfusion hrun
  | enabling =>
    obtain ⟨-, rfl⟩ := e3Move_enabling h
    rfl
  | ejecting =>
    obtain ⟨-, rfl⟩ := e3Move_ejecting h
    rfl
  | ejected =>
    obtain ⟨-, rfl⟩ := e3Move_ejected h
    rfl

/-- A step that leaves `e3_one` where it is. -/
theorem clean_same {e : LiveEvent} (h : LiveInv s) (hclean : CleanEnd s) (hlink : LinkInv t.e3)
    (hpc : t.e3.pc = s.e3.pc) (hbls : blsEnded s = true → blsEnded t = true)
    (hpinger : t.pinger = .running → s.pinger = .running) (he : raises s e = false) :
    LiveInv t ∧ (CleanEnd t ↔ Guarded s e) := by
  refine ⟨⟨hlink, fun hrec => hbls (h.record (hpc ▸ hrec)), fun hrun => ?_⟩,
    iff_of_true (fun hover => ?_) fun hyes => ?_⟩
  · rw [hpc]
    exact h.pinger (hpinger hrun)
  · have hnothing := hclean (hpc ▸ hover)
    exact nothingLeft_of_ended hlink (hbls hnothing.bls) fun hrun =>
      hnothing.pinger (hpinger hrun)
  · rw [he] at hyes
    exact Bool.noConfusion hyes

/-- Any step. -/
theorem clean_step {e : LiveEvent} (h : LiveInv s) (hclean : CleanEnd s)
    (hstep : liveStep m s e = some t) : LiveInv t ∧ (CleanEnd t ↔ Guarded s e) := by
  cases e with
  | e3 e =>
    obtain ⟨u', hu', rfl⟩ := Option.map_eq_some_iff.mp hstep
    obtain ⟨u, hu, rfl⟩ := Option.map_eq_some_iff.mp hu'
    have hlink : LinkInv (watch s.e3 u) := link_watch (link_move h.link hu)
    by_cases hbench : ∃ b, e = .bench b
    · obtain ⟨b, rfl⟩ := hbench
      exact clean_bench h hlink (watch_pc s.e3 u) (watch_bls s.e3 u)
        (by simp only [watch_pc]) hu
    · have hother : ∀ b, e ≠ .bench b := fun b hb => hbench ⟨b, hb⟩
      have hpc : u.pc = s.e3.pc := (other_move hother hu).1
      have hpinger : pingerAfter s.e3.pc s.e3.pc s.pinger = s.pinger := by
        unfold pingerAfter
        split_ifs with hstart hstop
        · exact absurd (hstart.1.symm.trans hstart.2) (by simp)
        · exact absurd (hstop.1.symm.trans hstop.2) (by simp)
        · rfl
      apply clean_same h hclean hlink
      · rw [watch_pc, hpc]
      · intro hend
        unfold blsEnded at hend ⊢
        rw [watch_bls, other_bls hend hother hu]
        exact hend
      · intro hrun
        rwa [watch_pc, hpc, hpinger] at hrun
      · cases e with
        | bench b => exact absurd rfl (hother b)
        | _ => rfl
  | pingerEnds =>
    obtain ⟨-, ht⟩ := Option.ite_none_right_eq_some.mp hstep
    obtain rfl := Option.some.inj ht
    exact clean_same h hclean h.link rfl id (by simp) rfl
  | recordRaises =>
    unfold liveStep at hstep
    simp only at hstep
    split at hstep
    · simp at hstep
    · rename_i p hp
      obtain ⟨hwait, ht⟩ := Option.ite_none_right_eq_some.mp hstep
      obtain rfl := Option.some.inj ht
      have hlink : LinkInv { s.e3.kill p with pc := .raised } :=
        linkInv_of_eq (by simp) (link_kill h.link hp) rfl rfl
      have hpinger : s.pinger ≠ .running :=
        h.pinger_ne (by rw [hwait]; rfl) (by rw [hwait]; rfl)
      exact clean_over hlink rfl (blsEnded_iff.mpr (kill_ended s.e3 p hp)) hpinger
        fun hyes => Bool.noConfusion hyes

end Runs

def liveStart : Live := ⟨e3Start, .notStarted⟩

theorem liveStart_init : LiveInit liveStart := ⟨e3Start_init, rfl⟩

/-- The pinger does not end within 30 s of its SIGTERM. -/
def pingerHangs : List LiveEvent :=
  (upToBuild ++ [E3Event.bench (.built 0 [energyObj]), E3Event.bench .timeUp]).map .e3

end Bench

end FakeBigLittle
