import FakeBigLittle.Bench.E3
import FakeBigLittle.Loader.Proofs

/-!
# What a step of `e3_one` can do
-/

namespace FakeBigLittle.Bench

open CString

/-! ## The kernel follows the link -/

section Link

variable {l l' : Loader}

theorem scxAfter_end (hend : l'.pc.isEnd = true) (scx : ScxState) :
    scxAfter l l' scx = .disabled := by
  rw [scxAfter, if_pos hend]

theorem scxAfter_held (hatt : l.attached = true) (hatt' : l'.attached = true)
    (hend : l'.pc.isEnd = false) (scx : ScxState) : scxAfter l l' scx = scx := by
  simp [scxAfter, hatt, hatt', hend]

end Link

/-! ## The harness -/

def E3Pc.isMeasured : E3Pc → Bool
  | .build | .stopPinger | .stopBls | .blsOut | .record | .recorded true => true
  | _ => false

section Steps

variable {m : E3Setup} {s t : E3}

theorem Proc.ended_eq_false {p : Proc} :
    p.ended = false ↔ p.dead = false ∧ p.main.pc.isEnd = false := by
  unfold Proc.ended
  exact Bool.or_eq_false_iff

/-- What the harness does to bls and, through bls, to the kernel. -/
inductive BlsMove (m : E3Setup) (s t : E3) : Prop where
  | same (hbls : t.bls = s.bls) (hscx : t.scx = s.scx)
  | popen (hpc : s.pc = .prepare) (hbls : t.bls = some ⟨m.loader, false⟩) (hscx : t.scx = s.scx)
  | kill (p : Proc) (hp : s.bls = some p) (hbls : t.bls = (s.kill p).bls)
      (hscx : t.scx = (s.kill p).scx)
  | term (p : Proc) (hp : s.bls = some p) (hrun : p.ended = false)
      (hbls : t.bls = (s.blsTo p (signalStep p.main .term)).bls)
      (hscx : t.scx = (s.blsTo p (signalStep p.main .term)).scx)

/-- What the harness does to the measurement. -/
inductive Measure (s t : E3) : BenchEvent → Prop where
  | start (hpc : s.pc = .startBuild) (hpc' : t.pc = .build) (hscx : t.scx = s.scx)
      (hcovered : t.covered = (s.scx == .enabled)) : Measure s t .go
  | built {e : BenchEvent} (hpc : s.pc = .build) (hpc' : t.pc ≠ .build)
      (hscx : t.scx = s.scx) (hcovered : t.covered = s.covered) : Measure s t e
  | other {e : BenchEvent} (hpc : s.pc ≠ .build) (hgo : s.pc = .startBuild → e ≠ .go)
      (hpc' : t.pc ≠ .build)
      (hmeasured : t.pc.isMeasured = true → s.pc.isMeasured = true)
      (hcovered : t.covered = s.covered) : Measure s t e

theorem waitStep_cases {p : Proc} {e : BenchEvent} (hp : s.bls = some p)
    (hpc : s.pc = .waitPoll ∨ s.pc = .waitState) (h : waitStep s p e = some t) :
    t.pc ≠ .prepare ∧ BlsMove m s t ∧ Measure s t e := by
  have hnot : s.pc ≠ .build := by
    rcases hpc with hpc | hpc <;> simp [hpc]
  have hgo : s.pc = .startBuild → e ≠ .go := by
    rcases hpc with hpc | hpc <;> simp [hpc]
  have hkilled : ∀ ok, ({ s.kill p with pc := .recorded ok } : E3).covered = s.covered := by
    intro ok
    unfold E3.kill
    split_ifs <;> rfl
  unfold waitStep at h
  split at h
  · split_ifs at h
    obtain rfl := Option.some.inj h
    exact ⟨by simp, .kill p hp rfl rfl,
      .other hnot hgo (by simp) (by simp [E3Pc.isMeasured]) (hkilled false)⟩
  · split_ifs at h
    obtain rfl := Option.some.inj h
    exact ⟨by simp, .same rfl rfl, .other hnot hgo (by simp) (by simp [E3Pc.isMeasured]) rfl⟩
  · by_cases hpoll : s.pc = .waitPoll
    · rw [if_pos hpoll] at h
      by_cases hend : p.ended = true
      · rw [if_pos hend] at h
        obtain rfl := Option.some.inj h
        exact ⟨by simp, .kill p hp rfl rfl,
          .other hnot hgo (by simp) (by simp [E3Pc.isMeasured]) (hkilled false)⟩
      · rw [if_neg hend] at h
        obtain rfl := Option.some.inj h
        exact ⟨by simp, .same rfl rfl, .other hnot hgo (by simp) (by simp [E3Pc.isMeasured]) rfl⟩
    · rw [if_neg hpoll] at h
      split_ifs at h <;> obtain rfl := Option.some.inj h <;>
        exact ⟨by simp, .same rfl rfl, .other hnot hgo (by simp) (by simp [E3Pc.isMeasured]) rfl⟩
  · simp at h

theorem blsEndStep_cases {p : Proc} {e : BenchEvent} (hp : s.bls = some p)
    (hpc : s.pc = .stopBls ∨ s.pc = .blsOut) (h : blsEndStep s p e = some t) :
    t.pc ≠ .prepare ∧ BlsMove m s t ∧ Measure s t e := by
  have hnot : s.pc ≠ .build := by
    rcases hpc with hpc | hpc <;> simp [hpc]
  have hgo : s.pc = .startBuild → e ≠ .go := by
    rcases hpc with hpc | hpc <;> simp [hpc]
  have hmeasured : s.pc.isMeasured = true := by
    rcases hpc with hpc | hpc <;> simp [hpc, E3Pc.isMeasured]
  unfold blsEndStep at h
  split at h
  · by_cases hstop : s.pc = .stopBls
    · rw [if_pos hstop] at h
      by_cases hend : p.ended = true
      · rw [if_pos hend] at h
        obtain rfl := Option.some.inj h
        exact ⟨by simp, .same rfl rfl, .other hnot hgo (by simp) (fun _ => hmeasured) rfl⟩
      · rw [if_neg hend] at h
        obtain rfl := Option.some.inj h
        exact ⟨by simp, .term p hp (by simpa using hend) rfl rfl,
          .other hnot hgo (by simp) (fun _ => hmeasured) rfl⟩
    · rw [if_neg hstop] at h
      split_ifs at h
      obtain rfl := Option.some.inj h
      exact ⟨by simp, .same rfl rfl, .other hnot hgo (by simp) (fun _ => hmeasured) rfl⟩
  · split_ifs at h
    obtain rfl := Option.some.inj h
    refine ⟨by simp, .kill p hp rfl rfl, .other hnot hgo (by simp) (fun _ => hmeasured) ?_⟩
    unfold E3.kill
    split_ifs <;> rfl
  · simp at h

theorem benchStep_cases {e : BenchEvent} (h : benchStep m s e = some t) :
    t.pc ≠ .prepare ∧ BlsMove m s t ∧ Measure s t e := by
  unfold benchStep at h
  split at h
  case h_1 | h_2 => simp at h
  case h_3 =>
    obtain rfl := Option.some.inj h
    refine ⟨by simp, .same rfl rfl, ?_⟩
    by_cases hbuild : s.pc = .build
    · exact .built hbuild (by simp) rfl rfl
    · exact .other hbuild (fun _ => by simp) (by simp) (by simp [E3Pc.isMeasured]) rfl
  case h_4 hpc =>
    by_cases hscx : m.factors.sched = .scx
    · rw [if_pos hscx] at h
      obtain rfl := Option.some.inj h
      exact ⟨by simp, .popen hpc rfl rfl,
        .other (by simp [hpc]) (by simp [hpc]) (by simp) (by simp [E3Pc.isMeasured]) rfl⟩
    · rw [if_neg hscx] at h
      obtain rfl := Option.some.inj h
      exact ⟨by simp, .same rfl rfl,
        .other (by simp [hpc]) (by simp [hpc]) (by simp) (by simp [E3Pc.isMeasured]) rfl⟩
  case h_5 p hpc hp _ => exact waitStep_cases hp (Or.inl hpc) h
  case h_6 p hpc hp _ => exact waitStep_cases hp (Or.inr hpc) h
  case h_9 hpc =>
    obtain rfl := Option.some.inj h
    exact ⟨by simp, .same rfl rfl, .start hpc rfl rfl rfl⟩
  case h_10 hpc =>
    obtain rfl := Option.some.inj h
    exact ⟨by simp, .same rfl rfl, .built hpc (by simp) rfl rfl⟩
  case h_13 hpc _ =>
    obtain rfl := Option.some.inj h
    exact ⟨by simp, .same rfl rfl,
      .other (by simp [hpc]) (by simp [hpc]) (by simp) (by simp [hpc, E3Pc.isMeasured]) rfl⟩
  case h_14 p hpc hp _ => exact blsEndStep_cases hp (Or.inl hpc) h
  case h_15 p hpc hp _ => exact blsEndStep_cases hp (Or.inr hpc) h
  case h_17 => simp at h
  all_goals
    rename_i hpc
    obtain rfl := Option.some.inj h
    exact ⟨by simp, .same rfl rfl,
      .other (by simp [hpc]) (by simp [hpc]) (by simp) (by simp [hpc, E3Pc.isMeasured]) rfl⟩

/-! ## The other parties -/

theorem e3Move_bls {e : LoaderEvent} (h : e3Move m s (.bls e) = some t) :
    ∃ p main, s.bls = some p ∧ p.ended = false ∧
      mainStep (m.bench.blsOptions m.factors) m.nrCpus p.main e = some main ∧
      t = s.blsTo p main := by
  unfold e3Move at h
  simp only at h
  split at h
  · simp at h
  · rename_i p hp
    split_ifs at h with hend
    obtain ⟨main, hmain, rfl⟩ := Option.map_eq_some_iff.mp h
    rw [Bool.or_eq_true, not_or] at hend
    exact ⟨p, main, hp, by simpa using hend.1, hmain, rfl⟩

theorem e3Move_blsDies (h : e3Move m s .blsDies = some t) :
    ∃ p, s.bls = some p ∧ p.ended = false ∧ t = s.kill p := by
  unfold e3Move at h
  simp only at h
  split at h
  · simp at h
  · rename_i p hp
    split_ifs at h with hend
    exact ⟨p, hp, by simpa using hend, (Option.some.inj h).symm⟩

theorem e3Move_enabling (h : e3Move m s .enabling = some t) :
    s.scx = .disabled ∧ t = { s with scx := .enabling } := by
  unfold e3Move at h
  simp only at h
  split at h
  · simp at h
  · split_ifs at h with hattach
    exact ⟨hattach.2.2, (Option.some.inj h).symm⟩

theorem e3Move_ejecting (h : e3Move m s .ejecting = some t) :
    s.scx = .enabled ∧ t = { s with scx := .disabling } := by
  unfold e3Move at h
  simp only at h
  split_ifs at h with hscx
  exact ⟨hscx, (Option.some.inj h).symm⟩

theorem e3Move_ejected (h : e3Move m s .ejected = some t) :
    s.scx = .disabling ∧ t = { s with scx := .disabled, ejected := true } := by
  unfold e3Move at h
  simp only at h
  split_ifs at h with hscx
  exact ⟨hscx, (Option.some.inj h).symm⟩

theorem other_move {e : E3Event} (he : ∀ b, e ≠ .bench b) (h : e3Move m s e = some t) :
    t.pc = s.pc ∧ t.covered = s.covered := by
  cases e with
  | bench b => exact absurd rfl (he b)
  | bls e =>
    obtain ⟨p, main, -, -, -, rfl⟩ := e3Move_bls h
    exact ⟨rfl, rfl⟩
  | blsDies =>
    obtain ⟨p, -, hrun, rfl⟩ := e3Move_blsDies h
    simp [E3.kill, hrun]
  | enabling =>
    obtain ⟨-, rfl⟩ := e3Move_enabling h
    exact ⟨rfl, rfl⟩
  | ejecting =>
    obtain ⟨-, rfl⟩ := e3Move_ejecting h
    exact ⟨rfl, rfl⟩
  | ejected =>
    obtain ⟨-, rfl⟩ := e3Move_ejected h
    exact ⟨rfl, rfl⟩

end Steps

end FakeBigLittle.Bench
