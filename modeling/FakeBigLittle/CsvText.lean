import FakeBigLittle.CString

/-!
# CSV as text

`csv.reader` and `csv.writer` of Python in their default dialect, with one new line as the end of
a row. What is written is read.
-/

namespace Csv

open CString

/-! ## Reading -/

inductive Place where
  | startRecord
  | startField
  | inField
  | inQuoted
  | quoteInQuoted
  /-- behind a carriage return, which a new line may still belong to -/
  | afterReturn
  deriving DecidableEq

structure Reader where
  place : Place
  field : Text
  fields : List Text
  rows : List (List Text)

namespace Reader

def push (s : Reader) (place : Place) (c : Char) : Reader :=
  { s with place := place, field := s.field ++ [c] }

def save (s : Reader) : Reader :=
  { s with place := .startField, field := [], fields := s.fields ++ [s.field] }

def endRow (s : Reader) (c : Char) : Reader :=
  { place := if c = '\r' then .afterReturn else .startRecord
    field := []
    fields := []
    rows := s.rows ++ [s.fields] }

def isEnd (c : Char) : Bool := c == '\n' || c == '\r'

-- Behind a field, and in one that is not quoted.
def unquoted (s : Reader) (place : Place) (c : Char) : Reader :=
  if isEnd c then s.save.endRow c else if c = ',' then s.save else s.push place c

def opening (s : Reader) (c : Char) : Reader :=
  if c = '"' then { s with place := .inQuoted } else s.unquoted .inField c

def record (s : Reader) (c : Char) : Reader := if isEnd c then s.endRow c else s.opening c

def step (s : Reader) (c : Char) : Reader :=
  match s.place with
  | .startRecord => s.record c
  | .afterReturn => if c = '\n' then { s with place := .startRecord } else s.record c
  | .startField => s.opening c
  | .inField => s.unquoted .inField c
  | .inQuoted => if c = '"' then { s with place := .quoteInQuoted } else s.push .inQuoted c
  | .quoteInQuoted => if c = '"' then s.push .inQuoted c else s.unquoted .inField c

def run (s : Reader) (t : Text) : Reader := t.foldl step s

/-- At the end of the text, a row that has begun ends too. -/
def finish (s : Reader) : List (List Text) :=
  match s.place with
  | .startRecord | .afterReturn => s.rows
  | _ => (s.save.endRow '\n').rows

end Reader

/-- The rows of `csv.reader`. -/
def read (t : Text) : List (List Text) := (Reader.run ⟨.startRecord, [], [], []⟩ t).finish

/-! ## Writing -/

def needsQuotes (t : Text) : Bool := t.any fun c => c == ',' || c == '"' || c == '\n'

def doubled (t : Text) : Text := t.flatMap fun c => if c = '"' then ['"', '"'] else [c]

def writeField (t : Text) : Text := if needsQuotes t then '"' :: (doubled t ++ ['"']) else t

/-- `csv.writer(f, lineterminator="\n").writerow` -/
def writeRow : List Text → Text
  | [] => ['\n']
  -- one empty field is no empty line
  | [[]] => ['"', '"', '\n']
  | t :: ts => writeField t ++ (ts.flatMap (fun u => ',' :: writeField u) ++ ['\n'])

def write (rows : List (List Text)) : Text := rows.flatMap writeRow

/-! ## What is written is read -/

namespace Reader

variable {s : Reader} {t u : Text}

theorem run_append (s : Reader) (t u : Text) : s.run (t ++ u) = (s.run t).run u :=
  List.foldl_append ..

theorem run_cons (s : Reader) (c : Char) (t : Text) : s.run (c :: t) = (s.step c).run t := rfl

/-- The rows so far, and no field or row has begun. -/
def between (rows : List (List Text)) : Reader := ⟨.startRecord, [], [], rows⟩

/-- In a row, before a field. -/
def before (fields : List Text) (rows : List (List Text)) : Reader :=
  ⟨.startField, [], fields, rows⟩

/-- Behind a field `t`. -/
structure Behind (fields : List Text) (rows : List (List Text)) (t : Text) (s : Reader) : Prop where
  place : s.place = .startField ∨ s.place = .inField ∨ s.place = .quoteInQuoted
  eq : s.field = t ∧ s.fields = fields ∧ s.rows = rows

variable {fields : List Text} {rows : List (List Text)}

theorem Behind.comma (h : Behind fields rows t s) : s.step ',' = before (fields ++ [t]) rows := by
  obtain ⟨hplace, rfl, rfl, rfl⟩ := h
  obtain ⟨place, field, fields, rows⟩ := s
  rcases hplace with h | h | h <;> simp only at h <;> subst h <;> rfl

theorem Behind.newline (h : Behind fields rows t s) :
    s.step '\n' = between (rows ++ [fields ++ [t]]) := by
  obtain ⟨hplace, rfl, rfl, rfl⟩ := h
  obtain ⟨place, field, fields, rows⟩ := s
  rcases hplace with h | h | h <;> simp only at h <;> subst h <;> rfl

/-- Characters that stand for themselves. -/
theorem run_inField (h : ∀ c ∈ t, isEnd c = false ∧ c ≠ ',') (u : Text) :
    run ⟨.inField, u, fields, rows⟩ t = ⟨.inField, u ++ t, fields, rows⟩ := by
  induction t generalizing u with
  | nil => rw [List.append_nil]; rfl
  | cons c t ih =>
    obtain ⟨⟨hend, hcomma⟩, hrest⟩ := List.forall_mem_cons.mp h
    have hstep : step ⟨.inField, u, fields, rows⟩ c = ⟨.inField, u ++ [c], fields, rows⟩ := by
      simp [step, unquoted, hend, hcomma, push]
    rw [run_cons, hstep, ih hrest, List.append_assoc]
    rfl

theorem run_doubled (t u : Text) :
    run ⟨.inQuoted, u, fields, rows⟩ (doubled t) = ⟨.inQuoted, u ++ t, fields, rows⟩ := by
  induction t generalizing u with
  | nil => rw [List.append_nil]; rfl
  | cons c t ih =>
    have hcons : doubled (c :: t) = (if c = '"' then ['"', '"'] else [c]) ++ doubled t := rfl
    have hchar : run ⟨.inQuoted, u, fields, rows⟩ (if c = '"' then ['"', '"'] else [c]) =
        ⟨.inQuoted, u ++ [c], fields, rows⟩ := by
      by_cases hc : c = '"'
      · subst hc
        rfl
      · simp [hc, run, step, push]
    rw [hcons, run_append, hchar, ih, List.append_assoc]
    rfl

theorem plain_of_unquoted (hquotes : ¬needsQuotes t = true) (h : '\r' ∉ t) :
    ∀ c ∈ t, (isEnd c = false ∧ c ≠ ',') ∧ c ≠ '"' := by
  intro c hc
  have hno : ¬(c == ',' || c == '"' || c == '\n') = true := fun hany =>
    hquotes (List.any_eq_true.mpr ⟨c, hc, hany⟩)
  have hreturn : c ≠ '\r' := by
    rintro rfl
    exact h hc
  simp only [Bool.or_eq_true, beq_iff_eq, not_or] at hno
  simp [isEnd, hno, hreturn]

theorem run_field (h : '\r' ∉ t) :
    Behind fields rows t (run (before fields rows) (writeField t)) := by
  unfold writeField
  by_cases hquotes : needsQuotes t = true
  · have hopen : step (before fields rows) '"' = ⟨.inQuoted, [], fields, rows⟩ := rfl
    rw [if_pos hquotes, run_cons, hopen, run_append, run_doubled]
    exact ⟨Or.inr (Or.inr rfl), rfl, rfl, rfl⟩
  · rw [if_neg hquotes]
    have hplain := plain_of_unquoted hquotes h
    cases t with
    | nil => exact ⟨Or.inl rfl, rfl, rfl, rfl⟩
    | cons c t =>
      obtain ⟨⟨⟨hend, hcomma⟩, hquote⟩, hrest⟩ := List.forall_mem_cons.mp hplain
      have hopen : step (before fields rows) c = ⟨.inField, [c], fields, rows⟩ := by
        simp [step, before, opening, hquote, unquoted, hend, hcomma, push]
      rw [run_cons, hopen, run_inField fun c hc => (hrest c hc).1]
      exact ⟨Or.inr (Or.inl rfl), rfl, rfl, rfl⟩

/-- The rest of a row. -/
theorem run_fields {ts : List Text} (hs : Behind fields rows t s) (h : ∀ u ∈ ts, '\r' ∉ u) :
    s.run (ts.flatMap (fun u => ',' :: writeField u) ++ ['\n']) =
      between (rows ++ [fields ++ t :: ts]) := by
  induction ts generalizing s fields t with
  | nil => exact hs.newline
  | cons u ts ih =>
    obtain ⟨hu, hts⟩ := List.forall_mem_cons.mp h
    have hcons : (u :: ts).flatMap (fun u => ',' :: writeField u) ++ ['\n'] =
        ',' :: (writeField u ++ (ts.flatMap (fun u => ',' :: writeField u) ++ ['\n'])) := by simp
    rw [hcons, run_cons, hs.comma, run_append, ih (run_field hu) hts, List.append_assoc]
    rfl

/-- A row that does not begin with the end of a line can as well begin behind a row. -/
theorem run_between {c : Char} (hc : isEnd c = false) (t : Text) :
    run (between rows) (c :: t) = run (before [] rows) (c :: t) := by
  have hstep : step (between rows) c = step (before [] rows) c := by
    simp [step, between, before, record, hc, opening, unquoted, save, push]
  rw [run_cons, run_cons, hstep]

theorem run_writeRow {row : List Text} (h : ∀ t ∈ row, '\r' ∉ t) :
    run (between rows) (writeRow row) = between (rows ++ [row]) := by
  unfold writeRow
  split
  · rfl
  · rfl
  · rename_i t ts hne
    obtain ⟨ht, hts⟩ := List.forall_mem_cons.mp h
    have hrow : run (before [] rows)
        (writeField t ++ (ts.flatMap (fun u => ',' :: writeField u) ++ ['\n'])) =
          between (rows ++ [t :: ts]) := by
      rw [run_append]
      exact run_fields (run_field ht) hts
    obtain ⟨c, rest, hcons, hend⟩ : ∃ c rest,
        writeField t ++ (ts.flatMap (fun u => ',' :: writeField u) ++ ['\n']) = c :: rest ∧
          isEnd c = false := by
      unfold writeField
      by_cases hquotes : needsQuotes t = true
      · rw [if_pos hquotes]
        exact ⟨'"', _, rfl, rfl⟩
      · rw [if_neg hquotes]
        cases t with
        | nil =>
          obtain ⟨u, us, rfl⟩ := List.exists_cons_of_ne_nil (hne rfl)
          exact ⟨',', _, rfl, rfl⟩
        | cons c t =>
          have hplain := plain_of_unquoted hquotes ht c List.mem_cons_self
          exact ⟨c, _, rfl, hplain.1.1⟩
    rw [hcons] at hrow ⊢
    rw [run_between hend, hrow]

end Reader

/-- **What is written is read**, if no cell has a carriage return. -/
theorem read_write {rows : List (List Text)} (h : ∀ row ∈ rows, ∀ t ∈ row, '\r' ∉ t) :
    read (write rows) = rows := by
  have hrun : ∀ done, Reader.run (Reader.between done) (write rows) =
      Reader.between (done ++ rows) := by
    induction rows with
    | nil => exact fun done => by rw [List.append_nil]; rfl
    | cons row rows ih =>
      intro done
      obtain ⟨hrow, hrows⟩ := List.forall_mem_cons.mp h
      have hcons : write (row :: rows) = writeRow row ++ write rows := rfl
      rw [hcons, Reader.run_append, Reader.run_writeRow hrow, ih hrows, List.append_assoc]
      rfl
  have hall := hrun []
  unfold read
  rw [show (⟨.startRecord, [], [], []⟩ : Reader) = Reader.between [] from rfl, hall]
  rfl

end Csv
