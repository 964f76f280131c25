import FakeBigLittle.CString
import Mathlib.Data.List.DropRight
import Mathlib.Data.List.Forall2

/-!
# Pipe tables

Tables as Markdown writes them: a line a row, a pipe on either side of a cell, and a delimiter row
that gives the alignments. A pipe behind a backslash is text, and blanks around a cell are not.
-/

namespace PipeTable

open CString

inductive Align where
  | l
  | r
  deriving DecidableEq

structure Table where
  headers : List Text
  aligns : List Align
  rows : List (List Text)
  deriving DecidableEq

/-! ## Reading -/

/-- The text before the first pipe that is no text, and what stands between the others. -/
def cut : (escaped : Bool) → Text → Text × List Text
  | _, [] => ([], [])
  | escaped, c :: t =>
    let rest := cut (c == '\\') t
    if c = '|' ∧ escaped = false then ([], rest.1 :: rest.2) else (c :: rest.1, rest.2)

def unescape : Text → Text
  | '\\' :: '|' :: t => '|' :: unescape t
  | c :: t => c :: unescape t
  | [] => []

def isBlank (c : Char) : Bool := c == ' '

def trim (t : Text) : Text := (t.dropWhile isBlank).rdropWhile isBlank

def readRow (line : Text) : Option (List Text) :=
  match cut false line with
  | ([], cells) =>
    if cells.getLast? = some [] then some (cells.dropLast.map fun c => unescape (trim c)) else none
  | _ => none

def dashes (t : Text) : Bool := t ≠ [] ∧ t.all (· == '-')

def readAlign (t : Text) : Option Align :=
  if t.head? = some ':' ∧ dashes t.tail then some .l
  else if t.getLast? = some ':' ∧ dashes t.dropLast then some .r
  else none

def read : List Text → Option Table
  | header :: delimiter :: rows => do
    let headers ← readRow header
    let aligns ← (← readRow delimiter).mapM readAlign
    let rows ← rows.mapM readRow
    if headers.length = aligns.length then some ⟨headers, aligns, rows⟩ else none
  | _ => none

/-! ## Writing -/

def escape (t : Text) : Text := t.flatMap fun c => if c = '|' then ['\\', '|'] else [c]

/-- The line of cells that are padded already. -/
def rowLine (cells : List Text) : Text :=
  "| ".toList ++ (" | ".toList.intercalate cells ++ " |".toList)

/-! ## Cells between pipes -/

theorem escape_cons (c : Char) (t : Text) :
    escape (c :: t) = (if c = '|' then ['\\', '|'] else [c]) ++ escape t := rfl

theorem escape_append (t u : Text) : escape (t ++ u) = escape t ++ escape u := List.flatMap_append

theorem cut_cons_of_ne {c : Char} (h : c ≠ '|') (escaped : Bool) (t : Text) :
    cut escaped (c :: t) = (c :: (cut (c == '\\') t).1, (cut (c == '\\') t).2) := by
  rw [cut]
  simp only [h, false_and, if_false]

-- The pipe stands behind the backslash that was put there.
theorem cut_escaped_pipe (t : Text) :
    cut true ('|' :: t) = ('|' :: (cut false t).1, (cut false t).2) := by
  rw [cut]
  simp only [Bool.true_eq_false, and_false, if_false]
  rfl

theorem cut_blank (escaped : Bool) (t : Text) :
    cut escaped (' ' :: t) = (' ' :: (cut false t).1, (cut false t).2) :=
  cut_cons_of_ne (by decide) escaped t

/-- No pipe of `w` ends the cell, and a blank behind it is a blank. -/
def Sealed (w : Text) : Prop :=
  ∀ escaped t, cut escaped (w ++ ' ' :: t) = (w ++ ' ' :: (cut false t).1, (cut false t).2)

theorem sealed_nil : Sealed [] := cut_blank

theorem sealed_cons {c : Char} {w : Text} (hc : c ≠ '|') (hw : Sealed w) : Sealed (c :: w) := by
  intro escaped t
  rw [List.cons_append, cut_cons_of_ne hc, hw, List.cons_append]

theorem sealed_escape (t : Text) : Sealed (escape t) := by
  induction t with
  | nil => exact sealed_nil
  | cons c t ih =>
    rw [escape_cons]
    by_cases hc : c = '|'
    · rw [if_pos hc]
      intro escaped u
      have hpipe : ['\\', '|'] ++ escape t ++ ' ' :: u =
          '\\' :: '|' :: (escape t ++ ' ' :: u) := rfl
      rw [hpipe, cut_cons_of_ne (by decide), beq_self_eq_true, cut_escaped_pipe, ih]
      rfl
    · rw [if_neg hc]
      exact sealed_cons hc ih

theorem sealed_append_blanks {w : Text} (hw : Sealed w) (n : Nat) :
    Sealed (w ++ List.replicate n ' ') := by
  induction n with
  | zero => simpa using hw
  | succ n ih =>
    intro escaped t
    rw [List.replicate_succ', ← List.append_assoc, List.append_assoc _ [' '], List.singleton_append,
      ih, cut_blank, List.append_assoc, List.append_assoc]
    simp

theorem sealed_blanks_append {w : Text} (hw : Sealed w) (n : Nat) :
    Sealed (List.replicate n ' ' ++ w) := by
  induction n with
  | zero => exact hw
  | succ n ih =>
    rw [List.replicate_succ, List.cons_append]
    exact sealed_cons (by decide) ih

theorem cut_intercalate {w : Text} {ws : List Text} (h : ∀ u ∈ w :: ws, Sealed u) :
    cut false (' ' :: (" | ".toList.intercalate (w :: ws) ++ " |".toList)) =
      (' ' :: (w ++ [' ']), ws.map (fun u => ' ' :: (u ++ [' '])) ++ [[]]) := by
  induction ws generalizing w with
  | nil =>
    rw [List.intercalate_singleton, cut_blank]
    have hend : w ++ " |".toList = w ++ ' ' :: ['|'] := rfl
    rw [hend, h w List.mem_cons_self]
    rfl
  | cons u ws ih =>
    have hnext : " | ".toList.intercalate (w :: u :: ws) ++ " |".toList =
        w ++ ' ' :: '|' :: ' ' :: (" | ".toList.intercalate (u :: ws) ++ " |".toList) := by
      rw [List.intercalate_cons_cons]
      simp
    rw [hnext, cut_blank, h w List.mem_cons_self, cut]
    simp only [and_self, if_true]
    rw [beq_false_of_ne (by decide), ih fun v hv => h v (List.mem_cons_of_mem _ hv)]
    rfl

/-- A line is read as its cells, without the blanks around them. -/
theorem readRow_row {ws : List Text} (hne : ws ≠ []) (h : ∀ w ∈ ws, Sealed w) :
    readRow (rowLine ws) = some (ws.map fun w => unescape (trim (' ' :: (w ++ [' '])))) := by
  obtain ⟨w, ws, rfl⟩ := List.exists_cons_of_ne_nil hne
  have hcut : cut false (rowLine (w :: ws)) =
      ([], (w :: ws).map (fun u => ' ' :: (u ++ [' '])) ++ [[]]) := by
    have hrow : rowLine (w :: ws) =
        '|' :: ' ' :: (" | ".toList.intercalate (w :: ws) ++ " |".toList) := rfl
    rw [hrow, cut]
    simp only [and_self, if_true]
    rw [beq_false_of_ne (by decide), cut_intercalate h]
    rfl
  unfold readRow
  rw [hcut]
  simp only [List.getLast?_append, List.getLast?_singleton, Option.some_or, if_true,
    List.dropLast_concat, List.map_map]
  rfl

/-! ## Blanks around a cell -/

theorem trim_blanks_append (n : Nat) (t : Text) : trim (List.replicate n ' ' ++ t) = trim t := by
  induction n with
  | zero => rfl
  | succ n ih =>
    rw [← ih, List.replicate_succ, List.cons_append]
    unfold trim
    rw [List.dropWhile_cons_of_pos (by decide)]

theorem rdropWhile_append_blanks (n : Nat) (t : Text) :
    (t ++ List.replicate n ' ').rdropWhile isBlank = t.rdropWhile isBlank := by
  induction n with
  | zero => rw [List.replicate_zero, List.append_nil]
  | succ n ih =>
    rw [List.replicate_succ', ← List.append_assoc, List.rdropWhile_concat_pos _ _ _ (by decide), ih]

theorem trim_append_blanks (n : Nat) (t : Text) : trim (t ++ List.replicate n ' ') = trim t := by
  unfold trim
  rw [List.dropWhile_append]
  by_cases hblank : t.dropWhile isBlank = []
  · have hpad : (List.replicate n ' ').dropWhile isBlank = [] := by
      rw [List.dropWhile_eq_nil_iff]
      intro c hc
      rw [List.eq_of_mem_replicate hc]
      rfl
    simp [hblank, hpad]
  · rw [if_neg (by simpa using hblank), rdropWhile_append_blanks]

theorem dropWhile_escape (t : Text) :
    (escape t).dropWhile isBlank = escape (t.dropWhile isBlank) := by
  induction t with
  | nil => rfl
  | cons c t ih =>
    by_cases hc : c = ' '
    · subst hc
      rw [List.dropWhile_cons_of_pos (by decide), ← ih]
      rfl
    · rw [List.dropWhile_cons_of_neg (by simpa [isBlank] using hc), escape_cons]
      split_ifs with hpipe
      · rfl
      · rw [List.singleton_append, List.dropWhile_cons_of_neg (by simpa [isBlank] using hc)]

theorem rdropWhile_escape (t : Text) :
    (escape t).rdropWhile isBlank = escape (t.rdropWhile isBlank) := by
  induction t using List.reverseRecOn with
  | nil => rfl
  | append_singleton t c ih =>
    rw [escape_append]
    by_cases hc : c = ' '
    · subst hc
      rw [List.rdropWhile_concat_pos _ _ _ (by decide), ← ih]
      exact rdropWhile_append_blanks 1 _
    · rw [List.rdropWhile_concat_neg _ _ _ (by simpa [isBlank] using hc), escape_append]
      have hlast : ∃ u, escape t ++ escape [c] = u ++ [c] := by
        by_cases hpipe : c = '|'
        · subst hpipe
          exact ⟨escape t ++ ['\\'], by simp [escape]⟩
        · exact ⟨escape t, by simp [escape, hpipe]⟩
      obtain ⟨u, hu⟩ := hlast
      rw [hu, List.rdropWhile_concat_neg _ _ _ (by simpa [isBlank] using hc)]

theorem trim_escape (t : Text) : trim (escape t) = escape (trim t) := by
  unfold trim
  rw [dropWhile_escape, rdropWhile_escape]

theorem escape_ne_pipe (t u : Text) : escape t ≠ '|' :: u := by
  cases t with
  | nil => exact (List.cons_ne_nil _ _).symm
  | cons c t =>
    rw [escape_cons]
    split_ifs with hpipe
    · exact fun h => absurd (List.cons.inj h).1 (by decide)
    · exact fun h => hpipe (List.cons.inj h).1

theorem unescape_escape (t : Text) : unescape (escape t) = t := by
  induction t with
  | nil => rfl
  | cons c t ih =>
    rw [escape_cons]
    split_ifs with hpipe
    · rw [List.cons_append, List.singleton_append, unescape, ih, hpipe]
    · rw [List.singleton_append, unescape, ih]
      intro u _ hu
      exact escape_ne_pipe t u hu

/-- A cell is read as what was escaped, whatever it was padded with. -/
theorem unescape_trim_padded (n m : Nat) (t : Text) :
    unescape (trim (List.replicate n ' ' ++ (escape t ++ List.replicate m ' '))) = trim t := by
  rw [trim_blanks_append, trim_append_blanks, trim_escape, unescape_escape]

/-! ## The delimiter row -/

/-- The cell of the delimiter row of a column `n + 1` wide. -/
def delimiter (n : Nat) : Align → Text
  | .l => ':' :: List.replicate n '-'
  | .r => List.replicate n '-' ++ [':']

theorem delimiter_length (n : Nat) (a : Align) : (delimiter n a).length = n + 1 := by
  cases a <;> simp [delimiter]

theorem mem_delimiter {n : Nat} {a : Align} {c : Char} (h : c ∈ delimiter n a) :
    c = ':' ∨ c = '-' := by
  cases a <;> simp [delimiter] at h <;> tauto

theorem escape_of_forall_ne {t : Text} (h : ∀ c ∈ t, c ≠ '|') : escape t = t := by
  induction t with
  | nil => rfl
  | cons c t ih =>
    obtain ⟨hc, ht⟩ := List.forall_mem_cons.mp h
    rw [escape_cons, if_neg hc, ih ht]
    rfl

theorem trim_of_forall_ne {t : Text} (h : ∀ c ∈ t, c ≠ ' ') : trim t = t := by
  have hdrop : t.dropWhile isBlank = t := by
    rw [List.dropWhile_eq_self_iff]
    intro hpos
    simpa [isBlank] using h _ (List.getElem_mem hpos)
  unfold trim
  rw [hdrop, List.rdropWhile_eq_self_iff]
  intro hne
  simpa [isBlank] using h _ (List.getLast_mem hne)

theorem escape_delimiter (n : Nat) (a : Align) : escape (delimiter n a) = delimiter n a := by
  apply escape_of_forall_ne
  intro c hc
  obtain rfl | rfl := mem_delimiter hc <;> decide

theorem trim_delimiter (n : Nat) (a : Align) : trim (delimiter n a) = delimiter n a := by
  apply trim_of_forall_ne
  intro c hc
  obtain rfl | rfl := mem_delimiter hc <;> decide

theorem dashes_replicate {n : Nat} (hn : n ≠ 0) : dashes (List.replicate n '-') = true := by
  simp [dashes, hn]

theorem readAlign_delimiter {n : Nat} (hn : n ≠ 0) (a : Align) :
    readAlign (delimiter n a) = some a := by
  unfold readAlign
  cases a with
  | l => simp [delimiter, dashes_replicate hn]
  | r =>
    simp only [delimiter, List.getLast?_concat, List.dropLast_concat, dashes_replicate hn, true_and,
      if_true]
    rw [if_neg]
    simp [hn, List.head?_append, List.head?_replicate]

/-! ## A table -/

/-- A cell padded to one side. -/
structure Padded (t w : Text) : Prop where
  pads : ∃ n m, w = List.replicate n ' ' ++ (escape t ++ List.replicate m ' ')

theorem Padded.sealed {t w : Text} (h : Padded t w) : Sealed w := by
  obtain ⟨n, m, rfl⟩ := h.pads
  exact sealed_blanks_append (sealed_append_blanks (sealed_escape t) m) n

theorem Padded.reads {t w : Text} (h : Padded t w) :
    unescape (trim (' ' :: (w ++ [' ']))) = trim t := by
  obtain ⟨n, m, rfl⟩ := h.pads
  have hpad : ' ' :: (List.replicate n ' ' ++ (escape t ++ List.replicate m ' ') ++ [' ']) =
      List.replicate (n + 1) ' ' ++ (escape t ++ List.replicate (m + 1) ' ') := by
    rw [List.replicate_succ, List.replicate_succ']
    simp
  rw [hpad, unescape_trim_padded]

theorem sealed_of_padded {ts ws : List Text} (h : List.Forall₂ Padded ts ws) :
    ∀ w ∈ ws, Sealed w := by
  induction h with
  | nil => exact List.forall_mem_nil _
  | cons hw _ ih => exact List.forall_mem_cons.mpr ⟨hw.sealed, ih⟩

theorem readRow_padded {ts ws : List Text} (hne : ws ≠ []) (h : List.Forall₂ Padded ts ws) :
    readRow (rowLine ws) = some (ts.map trim) := by
  rw [readRow_row hne (sealed_of_padded h)]
  congr 1
  clear hne
  induction h with
  | nil => rfl
  | cons hw _ ih => rw [List.map_cons, List.map_cons, ih, hw.reads]

theorem mapM_eq_some_iff {α β : Type} {f : α → Option β} {as : List α} {bs : List β} :
    as.mapM f = some bs ↔ List.Forall₂ (fun a b => f a = some b) as bs := by
  induction as generalizing bs with
  | nil =>
    rw [List.mapM_nil, List.forall₂_nil_left_iff]
    exact ⟨fun h => (Option.some.inj h).symm, fun h => h ▸ rfl⟩
  | cons a as ih =>
    rw [List.mapM_cons, List.forall₂_cons_left_iff]
    simp only [Option.bind_eq_bind, Option.bind_eq_some_iff]
    constructor
    · rintro ⟨b, hb, bs', hbs, h⟩
      exact ⟨b, bs', hb, ih.mp hbs, (Option.some.inj h).symm⟩
    · rintro ⟨b, bs', hb, hbs, rfl⟩
      exact ⟨b, hb, bs', ih.mpr hbs, rfl⟩

theorem mapM_isSome {α β : Type} {f : α → Option β} {as : List α}
    (h : ∀ a ∈ as, ∃ b, f a = some b) : ∃ bs, as.mapM f = some bs := by
  induction as with
  | nil => exact ⟨[], rfl⟩
  | cons a as ih =>
    obtain ⟨⟨b, hb⟩, has⟩ := List.forall_mem_cons.mp h
    obtain ⟨bs, hbs⟩ := ih has
    exact ⟨b :: bs, by rw [List.mapM_cons, hb, hbs]; rfl⟩

theorem mapM_map_eq_some {α β γ : Type} {f : β → Option γ} {g : α → γ} {as : List α} {bs : List β}
    (h : List.Forall₂ (fun a b => f b = some (g a)) as bs) : bs.mapM f = some (as.map g) := by
  rw [mapM_eq_some_iff, List.forall₂_map_right_iff]
  exact h.flip

/-- A cell of the delimiter row. -/
def Delimits (a : Align) (w : Text) : Prop := ∃ n, n ≠ 0 ∧ w = delimiter n a

theorem Delimits.padded {a : Align} {w : Text} (h : Delimits a w) : Padded w w := by
  obtain ⟨n, -, rfl⟩ := h
  exact ⟨0, 0, by simp [escape_delimiter]⟩

theorem readAligns_delimits {as : List Align} {ws : List Text} (hne : ws ≠ [])
    (h : List.Forall₂ Delimits as ws) :
    (readRow (rowLine ws)).bind (·.mapM readAlign) = some as := by
  have hpadded : List.Forall₂ Padded ws ws := by
    clear hne
    induction h with
    | nil => exact .nil
    | cons hw _ ih => exact .cons hw.padded ih
  rw [readRow_padded hne hpadded, Option.bind_some]
  have haligns : List.Forall₂ (fun a w => readAlign w = some (id a)) as (ws.map trim) := by
    rw [List.forall₂_map_right_iff]
    refine h.imp ?_
    rintro a w ⟨n, hn, rfl⟩
    rw [trim_delimiter]
    exact readAlign_delimiter hn a
  rw [mapM_map_eq_some haligns, List.map_id]

/-- **A table is read as what was written.** -/
theorem read_written {headers : List Text} {aligns : List Align} {rows : List (List Text)}
    {header delimiters : List Text} {body : List (List Text)} (hne : headers ≠ [])
    (hlength : headers.length = aligns.length) (hheader : List.Forall₂ Padded headers header)
    (hdelimiters : List.Forall₂ Delimits aligns delimiters)
    (hbody : List.Forall₂ (fun ts ws => ts ≠ [] ∧ List.Forall₂ Padded ts ws) rows body) :
    read (rowLine header :: rowLine delimiters :: body.map rowLine) =
      some ⟨headers.map trim, aligns, rows.map (·.map trim)⟩ := by
  have hcells : header ≠ [] := by
    rw [← List.length_pos_iff, ← hheader.length_eq, List.length_pos_iff]
    exact hne
  have hdelims : delimiters ≠ [] := by
    rw [← List.length_pos_iff, ← hdelimiters.length_eq, ← hlength, List.length_pos_iff]
    exact hne
  have hrows : (body.map rowLine).mapM readRow = some (rows.map (·.map trim)) := by
    apply mapM_map_eq_some
    rw [List.forall₂_map_right_iff]
    refine hbody.imp ?_
    rintro ts ws ⟨hts, hws⟩
    apply readRow_padded _ hws
    rw [← List.length_pos_iff, ← hws.length_eq, List.length_pos_iff]
    exact hts
  have haligns := readAligns_delimits hdelims hdelimiters
  obtain ⟨cells, hread, hmap⟩ := Option.bind_eq_some_iff.mp haligns
  unfold read
  simp only [readRow_padded hcells hheader, hread, hmap, hrows, Option.bind_eq_bind,
    Option.bind_some, List.length_map, hlength, if_true]

end PipeTable
