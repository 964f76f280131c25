import FakeBigLittle.Analyze.Bootstrap
import FakeBigLittle.Workload.Spec

/-!
# The stamp

The stamp is the last file of a tree and says for what arguments the tree was written. A removal
takes the files in any order, and an interrupted one may leave the stamp.
-/

namespace FakeBigLittle

open CString (Text sep_injective)

namespace Workload

/-! ## Stamps -/

theorem int_plain {i : Int} {c : Char} (hdigit : c.isDigit = false) (hminus : c ≠ '-') :
    c ∉ Printf.int i := by
  intro h
  rcases Printf.int_chars h with h | h
  · rw [hdigit] at h
    exact absurd h (by decide)
  · exact hminus h

/-- A stamp is one line. -/
theorem want_line (a : Args) : ∃ line, '\n' ∉ line ∧ want a = line ++ ['\n'] := by
  refine ⟨Printf.int a.files ++ ':' :: (Printf.int a.funcs ++ ':' :: Printf.int a.seed), ?_, ?_⟩
  · have hint : ∀ i, '\n' ∉ Printf.int i := fun i => int_plain (by decide) (by decide)
    simp [hint]
  · simp [want]

theorem want_injective : Function.Injective want := by
  intro a b h
  have hcolon : ∀ i, ':' ∉ Printf.int i := fun i => int_plain (by decide) (by decide)
  obtain ⟨hfiles, h⟩ := sep_injective (hcolon _) (hcolon _) h
  obtain ⟨hfuncs, h⟩ := sep_injective (hcolon _) (hcolon _) h
  have hseed := List.append_cancel_right h
  cases a
  cases b
  simp_all [Printf.int_injective.eq_iff]

/-- What is written of a stamp is no stamp before it is all of it. -/
theorem want_prefix {a b : Args} {left : Text} (h : want b ++ left = want a) :
    left = [] ∧ a = b := by
  obtain ⟨x, hx, hwant⟩ := want_line a
  obtain ⟨y, hy, hwant'⟩ := want_line b
  rw [hwant, hwant', List.append_assoc] at h
  obtain ⟨rfl, hleft⟩ := sep_injective hy hx h
  exact ⟨hleft, want_injective (hwant.trans hwant'.symm)⟩

/-! ## The names of the files -/

section Names

variable (rng : Analyze.Random ℚ)

theorem keys_mapM {σ : Type} {f : Nat → StateM σ (Text × Text)} {name : Nat → Text}
    (hf : ∀ i s, ((f i).run s).1.1 = name i) (l : List Nat) (s : σ) :
    Dict.keys ((l.mapM f).run' s) = l.map name := by
  induction l generalizing s with
  | nil => rfl
  | cons i l ih =>
    have h := ih ((f i).run s).2
    rw [List.mapM_cons]
    refine congrArg₂ List.cons (hf i s) h

theorem keys_sources (a : Args) :
    Dict.keys (sources rng a) = (List.range a.files.toNat).map (modName · "c") :=
  keys_mapM (fun _ _ => rfl) _ _

theorem modName_injective (ext : String) : Function.Injective (modName · ext) := by
  intro i j h
  exact Decimal.padded_injective (List.append_cancel_left (List.append_cancel_right h))

theorem keys_produced (a : Args) : Dict.keys (produced rng a) =
    (List.range a.files.toNat).map (modName · "c") ++ ["Makefile".toList] := by
  rw [← keys_sources rng a]
  exact List.map_append

theorem keys_outputs (a : Args) :
    Dict.keys (outputs rng a) = Dict.keys (produced rng a) ++ [stampName] :=
  List.map_append

theorem stampName_notMem (a : Args) : stampName ∉ Dict.keys (produced rng a) := by
  rw [keys_produced]
  intro h
  rcases List.mem_append.mp h with h | h
  · obtain ⟨i, -, h⟩ := List.mem_map.mp h
    exact absurd (List.cons.inj h).1 (by decide)
  · exact absurd (List.mem_singleton.mp h) (by decide)

theorem outputs_nodup (a : Args) : (Dict.keys (outputs rng a)).Nodup := by
  rw [keys_outputs]
  refine List.Nodup.append ?_ (List.nodup_singleton _) ?_
  · rw [keys_produced]
    refine List.Nodup.append (List.nodup_range.map (modName_injective "c"))
      (List.nodup_singleton _) ?_
    intro name hname hmake
    obtain ⟨i, -, hname⟩ := List.mem_map.mp hname
    rw [List.mem_singleton.mp hmake] at hname
    exact absurd (List.cons.inj hname).1 (by decide)
  · intro name hname hstamp
    rw [List.mem_singleton.mp hstamp] at hname
    exact stampName_notMem rng a hname

end Names

/-! ## The invariant -/

section Invariant

variable (rng : Analyze.Random ℚ)

/-- The same files with the same contents. -/
def Same (d l : Dict Text Text) : Prop := ∀ name, Dict.get d name = Dict.get l name

/-- A stamp is only in the tree that it stands for. -/
def Sound (tree : Option (Dict Text Text)) : Prop :=
  ∀ d a, tree = some d → Dict.get d stampName = some (want a) → Same d (outputs rng a)

/-- While the stamp is there, the tree is the one that it stands for, less what is removed. -/
structure Shrinks (removed : List Text) (d : Dict Text Text) : Prop where
  kept : ∀ a, Dict.get d stampName = some (want a) → ∀ name,
    Dict.get d name = if name ∈ removed then none else Dict.get (outputs rng a) name
  known : ∀ a, Dict.get d stampName = some (want a) → ∀ name ∈ removed,
    name ∈ Dict.keys (outputs rng a)

/-- What holds of the tree, by where the script is. -/
def Inv (s : State) : Prop :=
  match s.pc with
  | .upToDate a => Sound rng s.tree ∧ Complete rng a s.tree
  | .removing _ removed => ∃ d, s.tree = some d ∧ Shrinks rng removed d
  | .makedirs _ => s.tree = none
  | .opening a todo => ∃ d done, s.tree = some d ∧ outputs rng a = done ++ todo ∧ Same d done
  | .writing a name left todo => ∃ d done written, s.tree = some d ∧
      outputs rng a = done ++ (name, written ++ left) :: todo ∧ Same d (done ++ [(name, written)])
  | _ => Sound rng s.tree

variable {rng} {a b : Args} {d done todo : Dict Text Text}

theorem get_outputs {name content : Text} :
    Dict.get (outputs rng a) name = some content ↔ (name, content) ∈ outputs rng a :=
  Dict.get_eq_some (outputs_nodup rng a)

theorem get_outputs_stamp : Dict.get (outputs rng a) stampName = some (want a) :=
  get_outputs.mpr (List.mem_append_right _ (List.mem_singleton_self _))

theorem complete_of_same (h : Same d (outputs rng a)) : Complete rng a (some d) := by
  refine ⟨d, rfl, fun f hf => ?_⟩
  rw [h, get_outputs]
  exact List.mem_append_left _ hf

/-- Behind the stamp nothing is written. -/
theorem todo_nil (hout : outputs rng a = done ++ todo) (hstamp : stampName ∈ Dict.keys done) :
    todo = [] := by
  rcases todo.eq_nil_or_concat with rfl | ⟨rest, last, rfl⟩
  · rfl
  rw [List.concat_eq_append] at hout
  have hnodup := outputs_nodup rng a
  have hlast : last = (stampName, want a) := by
    have h : produced rng a ++ [(stampName, want a)] = (done ++ rest) ++ [last] := by
      rw [List.append_assoc, ← hout]
      rfl
    exact (List.cons.inj (List.append_inj' h rfl).2).1.symm
  rw [hout, hlast] at hnodup
  unfold Dict.keys at hnodup hstamp
  rw [List.map_append] at hnodup
  exact absurd (List.mem_map_of_mem (f := Prod.fst) (List.mem_append_right rest
    (List.mem_singleton_self (stampName, want a)))) (List.disjoint_of_nodup_append hnodup hstamp)

/-- Between two files the tree is the part that is written. -/
theorem sound_opening (hout : outputs rng a = done ++ todo) (hsame : Same d done) :
    Sound rng (some d) := by
  rintro _ b ⟨⟩ hstamp
  have hget : Dict.get done stampName = some (want b) := (hsame _).symm.trans hstamp
  obtain rfl := todo_nil hout (Dict.mem_keys_iff.mpr (by rw [hget]; exact Option.some_ne_none _))
  rw [List.append_nil] at hout
  have hwant : want a = want b := by
    rw [← hout, get_outputs_stamp] at hget
    exact Option.some.inj hget
  rw [← want_injective hwant, hout]
  exact hsame

/-- Within a file, too: a part of a stamp is no stamp. -/
theorem sound_writing {name written left : Text}
    (hout : outputs rng a = done ++ (name, written ++ left) :: todo)
    (hsame : Same d (done ++ [(name, written)])) : Sound rng (some d) := by
  rintro _ b ⟨⟩ hstamp
  have hget : Dict.get (done ++ [(name, written)]) stampName = some (want b) :=
    (hsame _).symm.trans hstamp
  have hdone : Dict.get done stampName = none := by
    by_contra hdone
    exact List.cons_ne_nil _ _ (todo_nil hout (Dict.mem_keys_iff.mpr hdone))
  obtain ⟨rfl, rfl⟩ : name = stampName ∧ written = want b := by
    rw [Dict.get_append, hdone] at hget
    by_cases hname : name = stampName
    · exact ⟨hname, by simpa [Dict.get, hname] using hget⟩
    · simp [Dict.get, hname] at hget
  have hmem : (stampName, want b ++ left) ∈ outputs rng a := by
    rw [hout]
    exact List.mem_append_right _ List.mem_cons_self
  have hwant : want b ++ left = want a :=
    Option.some.inj ((get_outputs.mpr hmem).symm.trans get_outputs_stamp)
  obtain ⟨rfl, rfl⟩ := want_prefix hwant
  have hwhole : outputs rng a = (done ++ [(stampName, want a)]) ++ todo := by
    rw [hout]
    simp
  exact sound_opening hwhole hsame d a rfl hstamp

theorem name_notMem {name content : Text}
    (hout : outputs rng a = done ++ (name, content) :: todo) : Dict.get done name = none := by
  have hnodup := outputs_nodup rng a
  rw [hout] at hnodup
  unfold Dict.keys at hnodup
  rw [List.map_append] at hnodup
  by_contra hget
  exact List.disjoint_of_nodup_append hnodup (Dict.mem_keys_iff.mpr hget) List.mem_cons_self

/-- What an operation on the open file makes of it. -/
theorem same_update {name part written : Text} {f : Text → Text}
    (hdone : Dict.get done name = none)
    (hold : ∀ other, other ≠ name → Dict.get d other = Dict.get done other)
    (hnew : f ((Dict.get d name).getD part) = written) :
    Same (Dict.update name part f d) (done ++ [(name, written)]) := by
  intro other
  rw [Dict.get_update, Dict.get_append]
  by_cases hother : other = name
  · subst hother
    rw [if_pos rfl, hdone, hnew]
    simp [Dict.get]
  · rw [if_neg hother, hold other hother]
    simp [Dict.get, Ne.symm hother]

theorem shrinks_nil (h : Sound rng (some d)) : Shrinks rng [] d :=
  ⟨fun a hstamp name => by simpa using h d a rfl hstamp name, fun _ _ _ h => absurd h (by simp)⟩

theorem Shrinks.erase {removed : List Text} (h : Shrinks rng removed d) {name : Text}
    (hname : name ∈ Dict.keys d) : Shrinks rng (name :: removed) (Dict.erase name d) := by
  have hold : ∀ a, Dict.get (Dict.erase name d) stampName = some (want a) →
      Dict.get d stampName = some (want a) := by
    intro a hstamp
    rw [Dict.get_erase] at hstamp
    split_ifs at hstamp
    exact hstamp
  constructor
  · intro a hstamp other
    rw [Dict.get_erase, h.kept a (hold a hstamp) other]
    by_cases hother : other = name
    · simp [hother]
    · simp [hother]
  · intro a hstamp other hother
    rcases List.mem_cons.mp hother with rfl | hother
    · rw [Dict.mem_keys_iff] at hname ⊢
      rw [h.kept a (hold a hstamp)] at hname
      split_ifs at hname
      · exact absurd rfl hname
      · exact hname
    · exact h.known a (hold a hstamp) other hother

/-- Only a removal has a stamp in another tree. -/
theorem Inv.sound {s : State} (h : Inv rng s) (hpc : ∀ a removed, s.pc ≠ .removing a removed) :
    Sound rng s.tree := by
  obtain ⟨tree, pc⟩ := s
  cases pc with
  | removing a removed => exact absurd rfl (hpc a removed)
  | upToDate a => exact h.1
  | makedirs a =>
    obtain rfl : tree = none := h
    exact fun _ _ htree => absurd htree.symm (Option.some_ne_none _)
  | opening a todo =>
    obtain ⟨d, done, rfl, hout, hsame⟩ := h
    exact sound_opening hout hsame
  | writing a name left todo =>
    obtain ⟨d, done, written, rfl, hout, hsame⟩ := h
    exact sound_writing hout hsame
  | idle | look a | read a | generate a | generated a => exact h

end Invariant

/-! ## Steps -/

section Steps

variable {rng : Analyze.Random ℚ} {s t : State}

theorem inv_start : Inv rng start := fun _ _ h _ => absurd h.symm (Option.some_ne_none _)

theorem inv_started (h : Inv rng s) {force : Bool} {a : Args}
    (hstep : step rng s (.start force a) = some t) : Inv rng t := by
  obtain ⟨tree, pc⟩ := s
  simp only [step] at hstep
  split_ifs at hstep with hpc
  · obtain rfl := Option.some.inj hstep
    exact h.sound (by simp [hpc])
  · obtain rfl := Option.some.inj hstep
    exact h.sound (by simp [hpc])

theorem inv_go (h : Inv rng s) (hstep : step rng s .go = some t) : Inv rng t := by
  obtain ⟨tree, pc⟩ := s
  unfold step goStep at hstep
  cases pc with
  | idle => exact absurd hstep (by simp)
  | look a =>
    obtain rfl := Option.some.inj hstep
    unfold Inv
    split_ifs <;> exact h
  | read a =>
    obtain rfl := Option.some.inj hstep
    by_cases hstamp : stampOf tree = some (want a)
    · rw [if_pos hstamp]
      obtain ⟨d, rfl, hget⟩ := Option.bind_eq_some_iff.mp hstamp
      exact ⟨h, complete_of_same (h d a rfl hget)⟩
    · rw [if_neg hstamp]
      exact h
  | generate a =>
    obtain rfl := Option.some.inj hstep
    cases tree with
    | none => exact rfl
    | some d => exact ⟨d, rfl, shrinks_nil h⟩
  | removing a removed =>
    simp only at hstep
    split_ifs at hstep
    obtain rfl := Option.some.inj hstep
    exact rfl
  | makedirs a =>
    obtain rfl := Option.some.inj hstep
    exact ⟨[], [], rfl, rfl, fun _ => rfl⟩
  | opening a todo =>
    obtain ⟨d, done, rfl, hout, hsame⟩ := h
    cases todo with
    | nil =>
      obtain rfl := Option.some.inj hstep
      exact sound_opening hout hsame
    | cons f todo =>
      obtain ⟨name, content⟩ := f
      obtain rfl := Option.some.inj hstep
      have hdone := name_notMem hout
      exact ⟨_, done, [], rfl, hout, same_update hdone (fun other _ => hsame other) rfl⟩
  | writing a name left todo =>
    simp only at hstep
    split_ifs at hstep with hleft
    obtain rfl := Option.some.inj hstep
    obtain ⟨d, done, written, rfl, hout, hsame⟩ := h
    refine ⟨d, done ++ [(name, written)], rfl, ?_, hsame⟩
    rw [hout, hleft]
    simp
  | upToDate a =>
    obtain rfl := Option.some.inj hstep
    exact h.1
  | generated a =>
    obtain rfl := Option.some.inj hstep
    exact h

theorem unlink_cases {name : Text} (hstep : step rng s (.unlink name) = some t) :
    ∃ a removed d, s = ⟨some d, .removing a removed⟩ ∧ name ∈ Dict.keys d ∧
      t = ⟨some (Dict.erase name d), .removing a (name :: removed)⟩ := by
  obtain ⟨tree, pc⟩ := s
  simp only [step] at hstep
  split at hstep
  next a removed d =>
    split_ifs at hstep with hname
    exact ⟨a, removed, d, rfl, hname, (Option.some.inj hstep).symm⟩
  next => exact absurd hstep (by simp)

theorem inv_unlink (h : Inv rng s) {name : Text} (hstep : step rng s (.unlink name) = some t) :
    Inv rng t := by
  obtain ⟨a, removed, d, rfl, hname, rfl⟩ := unlink_cases hstep
  obtain ⟨_, ⟨⟩, hshrinks⟩ := h
  exact ⟨_, rfl, hshrinks.erase hname⟩

theorem write_cases {n : Nat} (hstep : step rng s (.write n) = some t) :
    ∃ tree a name left todo, s = ⟨tree, .writing a name left todo⟩ ∧
      t = ⟨tree.map (Dict.update name [] (· ++ left.take n)),
        .writing a name (left.drop n) todo⟩ := by
  obtain ⟨tree, pc⟩ := s
  simp only [step] at hstep
  split at hstep
  next a name left todo =>
    split_ifs at hstep
    exact ⟨tree, a, name, left, todo, rfl, (Option.some.inj hstep).symm⟩
  next => exact absurd hstep (by simp)

theorem inv_write (h : Inv rng s) {n : Nat} (hstep : step rng s (.write n) = some t) :
    Inv rng t := by
  obtain ⟨tree, a, name, left, todo, rfl, rfl⟩ := write_cases hstep
  obtain ⟨d, done, written, rfl, hout, hsame⟩ := h
  have hdone := name_notMem hout
  refine ⟨_, done, written ++ left.take n, rfl, ?_, same_update hdone (fun other hother => ?_) ?_⟩
  · rw [hout, List.append_assoc, List.take_append_drop]
  · rw [hsame, Dict.get_append]
    simp [Dict.get, Ne.symm hother]
  · rw [hsame, Dict.get_append, hdone]
    simp [Dict.get]

/-- A script that is interrupted leaves its tree, and that may be a removal's. -/
theorem inv_interrupt (h : Inv rng s) (hstep : step rng s .interrupt = some t)
    (hspares : Spares s .interrupt) : Inv rng t := by
  obtain ⟨tree, pc⟩ := s
  simp only [step] at hstep
  split_ifs at hstep
  obtain rfl := Option.some.inj hstep
  by_cases hpc : ∃ a removed, pc = .removing a removed
  · obtain ⟨a, removed, rfl⟩ := hpc
    obtain ⟨d, rfl, hshrinks⟩ := h
    rintro _ b ⟨⟩ hstamp
    have hnil : removed = [] := by
      by_contra hne
      exact hspares rfl a removed rfl hne b hstamp
    intro name
    rw [hshrinks.kept b hstamp, hnil, if_neg List.not_mem_nil]
  · exact h.sound fun a removed heq => hpc ⟨a, removed, heq⟩

theorem inv_step (h : Inv rng s) (e : Event) (hstep : step rng s e = some t)
    (hspares : Spares s e) : Inv rng t := by
  cases e with
  | start force a => exact inv_started h hstep
  | go => exact inv_go h hstep
  | unlink name => exact inv_unlink h hstep
  | write n => exact inv_write h hstep
  | interrupt => exact inv_interrupt h hstep hspares

/-- A stamp that is left in a tree without all of the files. -/
def Broken (rng : Analyze.Random ℚ) (s : State) : Prop :=
  s.pc = .idle ∧ ∃ a, stampOf s.tree = some (want a) ∧ ¬Complete rng a s.tree

theorem broken_of_not_spares (h : Inv rng s) (e : Event) (hstep : step rng s e = some t)
    (hspares : ¬Spares s e) : Broken rng t := by
  unfold Spares at hspares
  push Not at hspares
  obtain ⟨rfl, a, removed, hpc, hne, b, hstamp⟩ := hspares
  obtain ⟨tree, pc⟩ := s
  obtain rfl : pc = .removing a removed := hpc
  obtain rfl : (⟨tree, .idle⟩ : State) = t := Option.some.inj hstep
  obtain ⟨d, rfl, hshrinks⟩ := h
  have hget : Dict.get d stampName = some (want b) := hstamp
  refine ⟨rfl, b, hstamp, ?_⟩
  rintro ⟨_, ⟨⟩, hall⟩
  -- A file that is removed is one of the workload, because the stamp is there.
  obtain ⟨name, rest, rfl⟩ := List.exists_cons_of_ne_nil hne
  have hgone : Dict.get d name = none := by
    rw [hshrinks.kept b hget, if_pos List.mem_cons_self]
  have hknown := hshrinks.known b hget name List.mem_cons_self
  rw [keys_outputs] at hknown
  rcases List.mem_append.mp hknown with hknown | hknown
  · obtain ⟨f, hf, rfl⟩ := List.mem_map.mp hknown
    rw [hall f hf] at hgone
    exact absurd hgone (Option.some_ne_none _)
  · rw [List.mem_singleton.mp hknown, hget] at hgone
    exact absurd hgone (Option.some_ne_none _)

/-- The next run with the arguments of the stamp finds it. -/
theorem broken_run (h : Broken rng s) : ∃ a t,
    Runs.run (step rng) s [.start false a, .go, .go] = some t ∧ t.pc = .upToDate a ∧
      ¬Complete rng a t.tree := by
  obtain ⟨tree, pc⟩ := s
  obtain ⟨rfl, a, hstamp, hcomplete⟩ := h
  refine ⟨a, ⟨tree, .upToDate a⟩, ?_, rfl, hcomplete⟩
  have hlook : step rng ⟨tree, .look a⟩ .go = some ⟨tree, .read a⟩ := by
    simp only [step, goStep, hstamp, Option.isSome_some, if_true]
  have hread : step rng ⟨tree, .read a⟩ .go = some ⟨tree, .upToDate a⟩ := by
    simp only [step, goStep, if_pos hstamp]
  refine Runs.run_cons_eq_some.mpr ⟨⟨tree, .look a⟩, rfl, ?_⟩
  refine Runs.run_cons_eq_some.mpr ⟨_, hlook, ?_⟩
  exact Runs.run_cons_eq_some.mpr ⟨_, hread, rfl⟩

theorem Inv.truthful (h : Inv rng s) : Truthful rng s := by
  obtain ⟨tree, pc⟩ := s
  rintro a rfl
  exact h.2

end Steps

/-- **"Up to date" means that the workload is there, unless a removal leaves the stamp behind.**
In a run in which no removal that has begun is interrupted before the stamp has gone, it does in
every state. A run with such an interruption has a beginning behind which a call of the script
prints it for a tree without all of the files. -/
theorem up_to_date_truthful (rng : Analyze.Random ℚ) (es : List Event) :
    (Runs.StepsMeet (step rng) Spares start es →
      Runs.StatesMeet (step rng) (Truthful rng) start es) ∧
    (¬Runs.StepsMeet (step rng) Spares start es → ∃ k a t,
      Runs.run (step rng) start (es.take k ++ [.start false a, .go, .go]) = some t ∧
        t.pc = .upToDate a ∧ ¬Complete rng a t.tree) := by
  constructor
  · intro hspares
    have hinv := Runs.statesMeet_of_stepsMeet (I := Inv rng) (fun s e t h => inv_step h e) es
      inv_start hspares
    exact hinv.imp (fun s h => h.truthful)
  · intro hspares
    obtain ⟨k, s, hrun, hbroken⟩ := Runs.exists_of_not_stepsMeet (I := Inv rng)
      (fun s e t h => inv_step h e) (fun s e t h => broken_of_not_spares h e) es inv_start hspares
    obtain ⟨a, t, hlast, hpc, hcomplete⟩ := broken_run hbroken
    exact ⟨k, a, t, by rw [Runs.run_append, hrun]; exact hlast, hpc, hcomplete⟩

/-- A call with one file writes the tree. -/
def written : List Event :=
  [.start false ⟨1, 0, 7⟩, .go, .go, .go, .go, .write 92, .go, .go, .write 192, .go, .go, .write 6,
    .go, .go, .go]

theorem run_written : Runs.run (step Analyze.quarters) start written =
    some ⟨some (outputs Analyze.quarters ⟨1, 0, 7⟩), .idle⟩ := by
  decide +kernel

def found : List Event := [.start false ⟨1, 0, 7⟩, .go, .go]

/-- The call is interrupted in its first file, and the next one begins anew. -/
def halted : List Event := [.start false ⟨1, 0, 7⟩, .go, .go, .go, .go, .write 50]

def again : List Event :=
  [.start false ⟨1, 0, 7⟩, .go, .go, .unlink "mod000.c".toList, .go, .go, .go, .write 92, .go, .go,
    .write 192, .go, .go, .write 6, .go, .go, .go]

/-- The third call finds what the second has written. -/
theorem up_to_date_truthful_again :
    Runs.StatesMeet (step Analyze.quarters) (Truthful Analyze.quarters) start
        (halted ++ .interrupt :: (again ++ found)) ∧
      (Runs.run (step Analyze.quarters) start (halted ++ .interrupt :: (again ++ found))).map
        (·.pc) = some (.upToDate ⟨1, 0, 7⟩) := by
  obtain ⟨name, left, todo, hwrites⟩ : ∃ name left todo,
      (Runs.run (step Analyze.quarters) start halted).map (·.pc) =
        some (.writing ⟨1, 0, 7⟩ name left todo) := ⟨_, _, _, rfl⟩
  obtain ⟨t, hrun, hpc⟩ := Option.map_eq_some_iff.mp hwrites
  have hcalm : ∀ es : List Event, .interrupt ∉ es → ∀ s,
      Runs.StepsMeet (step Analyze.quarters) Spares s es := fun es hes =>
    Runs.stepsMeet_of_forall fun e he s heq => absurd (heq ▸ he) hes
  refine ⟨(up_to_date_truthful Analyze.quarters _).1 ?_, by decide +kernel⟩
  refine (hcalm halted (by decide) start).append hrun fun u _ => ⟨?_, hcalm _ (by decide) u⟩
  intro _ a removed hremoving
  rw [hremoving] at hpc
  cases hpc

/-- A forced call begins to remove the tree and is interrupted; the next one finds the stamp. -/
theorem up_to_date_truthful_fails :
    ∃ s, Runs.run (step Analyze.quarters) start
        (written ++ [.start true ⟨1, 0, 7⟩, .go, .unlink "mod000.c".toList, .interrupt] ++ found) =
          some s ∧
      s.pc = .upToDate ⟨1, 0, 7⟩ ∧ ¬Complete Analyze.quarters ⟨1, 0, 7⟩ s.tree := by
  refine ⟨⟨some [makefile ⟨1, 0, 7⟩, (stampName, want ⟨1, 0, 7⟩)], .upToDate ⟨1, 0, 7⟩⟩,
    ?_, rfl, ?_⟩
  · rw [List.append_assoc, Runs.run_append, run_written]
    rfl
  rintro ⟨_, ⟨⟩, hall⟩
  have hproduced : produced Analyze.quarters ⟨1, 0, 7⟩ =
      [("mod000.c".toList, header ++ "\n".toList), makefile ⟨1, 0, 7⟩] := rfl
  rw [hproduced] at hall
  have hgone : Dict.get [makefile ⟨1, 0, 7⟩, (stampName, want ⟨1, 0, 7⟩)] "mod000.c".toList =
      none := rfl
  rw [hall _ List.mem_cons_self] at hgone
  exact absurd hgone (Option.some_ne_none _)

end Workload

end FakeBigLittle
