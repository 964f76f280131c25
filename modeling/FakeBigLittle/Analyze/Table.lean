import FakeBigLittle.PipeTable

/-!
# The tables of the report

`md_table` of `scripts/analyze.py`. A reader of Markdown gets the cells back.
-/

namespace FakeBigLittle

open CString PipeTable

namespace Analyze

def ljust (width : Nat) (t : Text) : Text := t ++ List.replicate (width - t.length) ' '

def rjust (width : Nat) (t : Text) : Text := List.replicate (width - t.length) ' ' ++ t

def pad : Align → Nat → Text → Text
  | .l => ljust
  | .r => rjust

/-- `max(len(row[i]) for row in cells)`; `none` is an `IndexError`. -/
def columnWidth (cells : List (List Text)) (i : Nat) : Option Nat :=
  (cells.mapM fun row => row[i]?.map List.length).map fun lengths => lengths.foldl max 0

/-- `line` -/
def tableLine (aligns : List Align) (widths : List Nat) (vals : List Text) : Option Text :=
  (vals.zipIdx.mapM fun v =>
    (aligns[v.2]?).bind fun a => (widths[v.2]?).map fun w => pad a w v.1).map rowLine

def sepCell (aligns : List Align) (widths : List Nat) (i : Nat) : Option Text :=
  (aligns[i]?).bind fun a => (widths[i]?).map fun w => delimiter (w - 1) a

/-- The `aligns` of a call, by default the first column to the left and the rest to the right. -/
def alignsOf (cols : Nat) (aligns : List Align) : List Align :=
  if aligns = [] then .l :: List.replicate (cols - 1) .r else aligns

/-- `md_table`, where no `aligns` is the empty list. -/
def mdTable (headers : List Text) (rows : List (List Text)) (aligns : List Align) :
    Option (List Text) :=
  let cols := headers.length
  let aligns := alignsOf cols aligns
  let header := headers.map escape
  let body := rows.map (·.map escape)
  ((List.range cols).mapM (columnWidth (header :: body))).bind fun widths =>
    let widths := widths.map (max · 3)
    ((List.range cols).mapM (sepCell aligns widths)).bind fun sep =>
      (tableLine aligns widths header).bind fun head =>
        (body.mapM (tableLine aligns widths)).map fun lines => head :: rowLine sep :: lines

/-! ## Padded cells -/

theorem padded_pad (a : Align) (w : Nat) (t : Text) : Padded t (pad a w (escape t)) := by
  cases a with
  | l => exact ⟨0, w - (escape t).length, rfl⟩
  | r => exact ⟨w - (escape t).length, 0, by simp [pad, rjust]⟩

theorem pad_length {w : Nat} {t : Text} (h : t.length ≤ w) (a : Align) :
    (pad a w t).length = w := by
  cases a with
  | l =>
    simp only [pad, ljust, List.length_append, List.length_replicate]
    omega
  | r =>
    simp only [pad, rjust, List.length_append, List.length_replicate]
    omega

theorem delimits_delimiter {w : Nat} (h : 3 ≤ w) (a : Align) : Delimits a (delimiter (w - 1) a) :=
  ⟨w - 1, by omega, rfl⟩

/-! ## The widths -/

theorem le_foldl_max {l : List Nat} {m n : Nat} (h : m ≤ n ∨ m ∈ l) : m ≤ l.foldl max n := by
  induction l generalizing n with
  | nil => exact h.resolve_right List.not_mem_nil
  | cons k l ih =>
    rw [List.foldl_cons]
    rcases h with h | h
    · exact ih (Or.inl (h.trans (Nat.le_max_left n k)))
    · rcases List.mem_cons.mp h with rfl | h
      · exact ih (Or.inl (Nat.le_max_right n m))
      · exact ih (Or.inr h)

theorem exists_of_mem {α β : Type} {R : α → β → Prop} {as : List α} {bs : List β} {a : α}
    (h : List.Forall₂ R as bs) (ha : a ∈ as) : ∃ b ∈ bs, R a b := by
  induction h with
  | nil => exact absurd ha List.not_mem_nil
  | cons hab _ ih =>
    rcases List.mem_cons.mp ha with rfl | ha
    · exact ⟨_, List.mem_cons_self, hab⟩
    · obtain ⟨b, hb, hR⟩ := ih ha
      exact ⟨b, List.mem_cons_of_mem _ hb, hR⟩

/-- The cells of a column are there, and none is wider than it. -/
theorem columnWidth_spec {cells : List (List Text)} {i w : Nat} (h : columnWidth cells i = some w) :
    ∀ row ∈ cells, ∃ v, row[i]? = some v ∧ v.length ≤ w := by
  obtain ⟨lengths, hlengths, rfl⟩ := Option.map_eq_some_iff.mp h
  intro row hrow
  have hall := mapM_eq_some_iff.mp hlengths
  obtain ⟨n, hn, hlen⟩ := exists_of_mem hall hrow
  obtain ⟨v, hv, rfl⟩ := Option.map_eq_some_iff.mp hlen
  exact ⟨v, hv, le_foldl_max (Or.inr hn)⟩

theorem columnWidth_isSome {cells : List (List Text)} {i : Nat}
    (h : ∀ row ∈ cells, i < row.length) : ∃ w, columnWidth cells i = some w := by
  obtain ⟨lengths, hlengths⟩ := mapM_isSome (f := fun row : List Text => row[i]?.map List.length)
    fun row hrow => ⟨_, by rw [List.getElem?_eq_getElem (h row hrow), Option.map_some]⟩
  exact ⟨_, by rw [columnWidth, hlengths, Option.map_some]⟩

/-! ## A line -/

/-- The padded cells of a line. -/
def Cells (aligns : List Align) (widths : List Nat) (ts ws : List Text) : Prop :=
  List.Forall₂ (fun t w =>
    (aligns[t.2]?).bind (fun a => (widths[t.2]?).map fun n => pad a n (escape t.1)) = some w)
    ts.zipIdx ws

section Cells

variable {aligns : List Align} {widths : List Nat} {ts ws : List Text}

theorem tableLine_eq_some_iff {l : Text} :
    tableLine aligns widths (ts.map escape) = some l ↔
      ∃ ws, Cells aligns widths ts ws ∧ rowLine ws = l := by
  unfold tableLine
  rw [Option.map_eq_some_iff]
  apply exists_congr
  intro ws
  rw [mapM_eq_some_iff, List.zipIdx_map, List.forall₂_map_left_iff]
  rfl

theorem Cells.length (h : Cells aligns widths ts ws) : ts.length = ws.length := by
  rw [← List.Forall₂.length_eq h, List.length_zipIdx]

theorem Cells.padded (h : Cells aligns widths ts ws) : List.Forall₂ Padded ts ws := by
  have hpadded : List.Forall₂ (fun t w => Padded t.1 w) ts.zipIdx ws := by
    refine List.Forall₂.imp ?_ h
    rintro ⟨t, i⟩ w hw
    obtain ⟨a, -, hw⟩ := Option.bind_eq_some_iff.mp hw
    obtain ⟨n, -, rfl⟩ := Option.map_eq_some_iff.mp hw
    exact padded_pad a n t
  have hmap := List.forall₂_map_left_iff.mpr hpadded
  rwa [List.zipIdx_map_fst] at hmap

theorem Cells.cell (h : Cells aligns widths ts ws) {i : Nat} {t : Text} (ht : ts[i]? = some t) :
    ∃ a n, aligns[i]? = some a ∧ widths[i]? = some n ∧ ws[i]? = some (pad a n (escape t)) := by
  obtain ⟨hi, rfl⟩ := List.getElem?_eq_some_iff.mp ht
  have hw : i < ws.length := h.length ▸ hi
  have hcell := List.Forall₂.get h (by rwa [List.length_zipIdx]) hw
  simp only [List.get_eq_getElem, List.getElem_zipIdx, Nat.zero_add] at hcell
  obtain ⟨a, ha, hcell⟩ := Option.bind_eq_some_iff.mp hcell
  obtain ⟨n, hn, hcell⟩ := Option.map_eq_some_iff.mp hcell
  exact ⟨a, n, ha, hn, by rw [hcell, List.getElem?_eq_getElem hw]⟩

theorem Cells.lengths (h : Cells aligns widths ts ws) (hcols : ts.length = widths.length)
    (hnarrow : ∀ (i : Nat) t n, ts[i]? = some t → widths[i]? = some n → (escape t).length ≤ n) :
    ws.map List.length = widths := by
  have hlength := h.length
  apply List.ext_getElem?
  intro i
  cases ht : ts[i]? with
  | none =>
    rw [List.getElem?_eq_none_iff] at ht
    rw [List.getElem?_eq_none (by rw [List.length_map]; omega), List.getElem?_eq_none (by omega)]
  | some t =>
    obtain ⟨a, n, -, hn, hw⟩ := h.cell ht
    rw [List.getElem?_map, hw, hn, Option.map_some, pad_length (hnarrow i t n ht hn)]

theorem exists_cells (hcols : ts.length ≤ widths.length) (hsides : ts.length ≤ aligns.length) :
    ∃ ws, Cells aligns widths ts ws := by
  unfold Cells
  simp only [← mapM_eq_some_iff]
  apply mapM_isSome
  rintro ⟨t, i⟩ ht
  have hi : i < ts.length := by
    have hlt := List.snd_lt_of_mem_zipIdx ht
    omega
  exact ⟨_, by rw [List.getElem?_eq_getElem (by omega), List.getElem?_eq_getElem (by omega)]; rfl⟩

end Cells

theorem intercalate_length (sep : Text) (ws : List Text) :
    (sep.intercalate ws).length = ws.flatten.length + sep.length * (ws.length - 1) := by
  induction ws with
  | nil => simp
  | cons w ws ih =>
    cases ws with
    | nil => simp
    | cons v ws =>
      rw [List.intercalate_cons_cons, List.length_append, List.length_append, ih]
      simp only [List.flatten_cons, List.length_append, List.length_cons, Nat.add_sub_cancel,
        Nat.mul_succ]
      omega

theorem row_length (ws : List Text) :
    (rowLine ws).length = 4 + ws.flatten.length + 3 * (ws.length - 1) := by
  have hleft : "| ".toList.length = 2 := rfl
  have hright : " |".toList.length = 2 := rfl
  have hbetween : " | ".toList.length = 3 := rfl
  unfold rowLine
  rw [List.length_append, List.length_append, intercalate_length, hleft, hright, hbetween]
  omega

theorem row_length_congr {us ws : List Text} (h : us.map List.length = ws.map List.length) :
    (rowLine us).length = (rowLine ws).length := by
  have hlength := congrArg List.length h
  rw [List.length_map, List.length_map] at hlength
  rw [row_length, row_length, List.length_flatten, List.length_flatten, h, hlength]

/-! ## The table -/

theorem forall₂_exists_map {α β γ : Type} {R : α → β → Prop} {f : β → γ} {as : List α}
    {cs : List γ} :
    List.Forall₂ (fun a c => ∃ b, R a b ∧ f b = c) as cs ↔
      ∃ bs, List.Forall₂ R as bs ∧ bs.map f = cs := by
  constructor
  · intro h
    induction h with
    | nil => exact ⟨[], .nil, rfl⟩
    | cons hc _ ih =>
      obtain ⟨b, hb, rfl⟩ := hc
      obtain ⟨bs, hbs, rfl⟩ := ih
      exact ⟨b :: bs, .cons hb hbs, rfl⟩
  · rintro ⟨bs, hbs, rfl⟩
    rw [List.forall₂_map_right_iff]
    exact hbs.imp fun a b hb => ⟨b, hb, rfl⟩

/-- The parts of a table that is returned. -/
structure Parts (headers : List Text) (rows : List (List Text)) (aligns : List Align)
    (widths : List Nat) (sep header : List Text) (body : List (List Text)) : Prop where
  columns : List.Forall₂
    (fun i w => columnWidth (headers.map escape :: rows.map (·.map escape)) i = some w)
    (List.range headers.length) widths
  sides : List.Forall₂ (fun i w => sepCell aligns (widths.map (max · 3)) i = some w)
    (List.range headers.length) sep
  first : Cells aligns (widths.map (max · 3)) headers header
  rest : List.Forall₂ (Cells aligns (widths.map (max · 3))) rows body

theorem exists_forall₂ {α β : Type} {R : α → β → Prop} {as : List α} (h : ∀ a ∈ as, ∃ b, R a b) :
    ∃ bs, List.Forall₂ R as bs := by
  induction as with
  | nil => exact ⟨[], .nil⟩
  | cons a as ih =>
    obtain ⟨⟨b, hb⟩, has⟩ := List.forall_mem_cons.mp h
    obtain ⟨bs, hbs⟩ := ih has
    exact ⟨b :: bs, .cons hb hbs⟩

theorem mdTable_eq_some_iff {headers : List Text} {rows : List (List Text)} {aligns : List Align}
    {lines : List Text} :
    mdTable headers rows aligns = some lines ↔
      ∃ widths sep header body,
        Parts headers rows (alignsOf headers.length aligns) widths sep header body ∧
          lines = rowLine header :: rowLine sep :: body.map rowLine := by
  unfold mdTable
  simp only [Option.bind_eq_some_iff, Option.map_eq_some_iff, mapM_eq_some_iff,
    tableLine_eq_some_iff, List.forall₂_map_left_iff, forall₂_exists_map]
  constructor
  · rintro ⟨widths, hwidths, sep, hsep, -, ⟨header, hheader, rfl⟩, -, ⟨body, hbody, rfl⟩, rfl⟩
    exact ⟨widths, sep, header, body, ⟨hwidths, hsep, hheader, hbody⟩, rfl⟩
  · rintro ⟨widths, sep, header, body, ⟨hwidths, hsep, hheader, hbody⟩, rfl⟩
    exact ⟨widths, hwidths, sep, hsep, _, ⟨header, hheader, rfl⟩, _, ⟨body, hbody, rfl⟩, rfl⟩

section Parts

variable {headers : List Text} {rows : List (List Text)} {aligns : List Align} {widths : List Nat}
  {sep header : List Text} {body : List (List Text)}

theorem Parts.widths_length (h : Parts headers rows aligns widths sep header body) :
    widths.length = headers.length := by
  rw [← h.columns.length_eq, List.length_range]

theorem range_getElem_of_forall₂ {α : Type} {R : Nat → α → Prop} {n : Nat} {bs : List α}
    (h : List.Forall₂ R (List.range n) bs) {i : Nat} (hi : i < n) :
    ∃ b, bs[i]? = some b ∧ R i b := by
  have hlength := h.length_eq
  rw [List.length_range] at hlength
  have hb : i < bs.length := hlength ▸ hi
  have hR := h.get (by rwa [List.length_range]) hb
  simp only [List.get_eq_getElem, List.getElem_range] at hR
  exact ⟨bs[i], List.getElem?_eq_getElem hb, hR⟩

/-- Every row has the columns of the headers, each no wider than its column. -/
theorem Parts.narrow (h : Parts headers rows aligns widths sep header body) {ts : List Text}
    (hts : ts = headers ∨ ts ∈ rows) (i : Nat) (t : Text) (n : Nat) (ht : ts[i]? = some t)
    (hn : (widths.map (max · 3))[i]? = some n) : (escape t).length ≤ n := by
  rw [List.getElem?_map, Option.map_eq_some_iff] at hn
  obtain ⟨w, hw, rfl⟩ := hn
  have hi : i < headers.length := by
    rw [← h.widths_length]
    exact (List.getElem?_eq_some_iff.mp hw).1
  obtain ⟨w', hw', hwidth⟩ := range_getElem_of_forall₂ h.columns hi
  obtain rfl : w = w' := Option.some.inj (hw.symm.trans hw')
  have hmem : ts.map escape ∈ headers.map escape :: rows.map (·.map escape) := by
    rcases hts with rfl | hts
    · exact List.mem_cons_self
    · exact List.mem_cons_of_mem _ (List.mem_map_of_mem hts)
  obtain ⟨v, hv, hle⟩ := columnWidth_spec hwidth _ hmem
  rw [List.getElem?_map, ht, Option.map_some] at hv
  obtain rfl := Option.some.inj hv
  exact hle.trans (Nat.le_max_left _ _)

theorem Parts.cells (h : Parts headers rows aligns widths sep header body) {ts : List Text}
    (hts : ts ∈ rows) : ∃ ws ∈ body, Cells aligns (widths.map (max · 3)) ts ws :=
  exists_of_mem h.rest hts

theorem Parts.row_length (h : Parts headers rows aligns widths sep header body) {ts : List Text}
    (hts : ts ∈ rows) : ts.length = headers.length := by
  have hwidths := h.widths_length
  apply Nat.le_antisymm
  · -- a cell behind the last column has no width
    by_contra hlong
    obtain ⟨ws, -, hws⟩ := h.cells hts
    obtain ⟨a, n, -, hn, -⟩ := hws.cell (List.getElem?_eq_getElem (i := headers.length) (by omega))
    have hlt := (List.getElem?_eq_some_iff.mp hn).1
    rw [List.length_map] at hlt
    omega
  · by_contra hshort
    obtain ⟨w, -, hwidth⟩ := range_getElem_of_forall₂ h.columns (Nat.lt_of_not_le hshort)
    obtain ⟨v, hv, -⟩ := columnWidth_spec hwidth _
      (List.mem_cons_of_mem _ (List.mem_map_of_mem hts))
    have hlt := (List.getElem?_eq_some_iff.mp hv).1
    rw [List.length_map] at hlt
    omega

theorem sepCell_spec {i : Nat} {w : Text} (h : sepCell aligns (widths.map (max · 3)) i = some w) :
    ∃ a n, aligns[i]? = some a ∧ (widths.map (max · 3))[i]? = some n ∧ 3 ≤ n ∧
      w = delimiter (n - 1) a := by
  obtain ⟨a, ha, h⟩ := Option.bind_eq_some_iff.mp h
  obtain ⟨n, hn, rfl⟩ := Option.map_eq_some_iff.mp h
  refine ⟨a, n, ha, hn, ?_, rfl⟩
  rw [List.getElem?_map, Option.map_eq_some_iff] at hn
  obtain ⟨m, -, rfl⟩ := hn
  exact Nat.le_max_right m 3

theorem Parts.columns_le (h : Parts headers rows aligns widths sep header body) :
    headers.length ≤ aligns.length := by
  by_contra hshort
  obtain ⟨w, -, hsep⟩ := range_getElem_of_forall₂ h.sides (Nat.lt_of_not_le hshort)
  obtain ⟨a, n, ha, -, -, -⟩ := sepCell_spec hsep
  have hlt := (List.getElem?_eq_some_iff.mp ha).1
  omega

theorem Parts.sep_length (h : Parts headers rows aligns widths sep header body) :
    sep.length = headers.length := by
  rw [← h.sides.length_eq, List.length_range]

theorem Parts.delimits (h : Parts headers rows aligns widths sep header body) :
    List.Forall₂ Delimits (aligns.take headers.length) sep := by
  have hsides := h.columns_le
  have hsep := h.sep_length
  refine List.forall₂_of_length_eq_of_get (by rw [List.length_take]; omega) fun i hi hi' => ?_
  obtain ⟨w, hw, hcell⟩ := range_getElem_of_forall₂ h.sides (hsep ▸ hi')
  obtain ⟨a, n, ha, -, hn, rfl⟩ := sepCell_spec hcell
  rw [List.getElem?_eq_getElem hi', Option.some.injEq] at hw
  rw [List.getElem?_eq_getElem (by omega), Option.some.injEq] at ha
  rw [List.get_eq_getElem, List.get_eq_getElem, List.getElem_take, hw, ha]
  exact delimits_delimiter hn a

theorem Parts.sep_widths (h : Parts headers rows aligns widths sep header body) :
    sep.map List.length = widths.map (max · 3) := by
  have hsep := h.sep_length
  have hwidths := h.widths_length
  apply List.ext_getElem?
  intro i
  by_cases hi : i < headers.length
  · obtain ⟨w, hw, hcell⟩ := range_getElem_of_forall₂ h.sides hi
    obtain ⟨a, n, -, hn, hle, rfl⟩ := sepCell_spec hcell
    rw [List.getElem?_map, hw, hn, Option.map_some, delimiter_length, Nat.sub_add_cancel (by omega)]
  · rw [List.getElem?_eq_none (by rw [List.length_map]; omega),
      List.getElem?_eq_none (by rw [List.length_map]; omega)]

/-- The lines of the table are padded to the same widths. -/
theorem Parts.cells_widths (h : Parts headers rows aligns widths sep header body) :
    ∀ ws ∈ header :: sep :: body, ws.map List.length = widths.map (max · 3) := by
  have hlength : (widths.map (max · 3)).length = headers.length := by
    rw [List.length_map, h.widths_length]
  rw [List.forall_mem_cons, List.forall_mem_cons]
  refine ⟨?_, h.sep_widths, fun ws hws => ?_⟩
  · exact h.first.lengths hlength.symm fun i t n ht hn => h.narrow (Or.inl rfl) i t n ht hn
  · obtain ⟨ts, hts, hcells⟩ := exists_of_mem h.rest.flip hws
    have hcells : Cells aligns (widths.map (max · 3)) ts ws := hcells
    exact hcells.lengths ((h.row_length hts).trans hlength.symm)
      fun i t n ht hn => h.narrow (Or.inr hts) i t n ht hn

theorem exists_parts (haligns : headers.length ≤ aligns.length)
    (hrows : ∀ ts ∈ rows, ts.length = headers.length) :
    ∃ widths sep header body, Parts headers rows aligns widths sep header body := by
  have hcells : ∀ i < headers.length,
      ∀ row ∈ headers.map escape :: rows.map (·.map escape), i < row.length := by
    intro i hi
    rw [List.forall_mem_cons, List.forall_mem_map]
    refine ⟨by rwa [List.length_map], fun ts hts => ?_⟩
    rw [List.length_map, hrows ts hts]
    exact hi
  have hcolumns : ∀ i ∈ List.range headers.length,
      ∃ w, columnWidth (headers.map escape :: rows.map (·.map escape)) i = some w :=
    fun i hi => columnWidth_isSome (hcells i (List.mem_range.mp hi))
  obtain ⟨widths, hwidths⟩ := mapM_isSome hcolumns
  have hlength : widths.length = headers.length := by
    rw [← (mapM_eq_some_iff.mp hwidths).length_eq, List.length_range]
  have hlength' : (widths.map (max · 3)).length = headers.length := by
    rw [List.length_map, hlength]
  have hsides : ∀ i ∈ List.range headers.length,
      ∃ w, sepCell aligns (widths.map (max · 3)) i = some w := by
    intro i hi
    have hi := List.mem_range.mp hi
    unfold sepCell
    rw [List.getElem?_eq_getElem (by omega), List.getElem?_eq_getElem (by omega)]
    exact ⟨_, rfl⟩
  obtain ⟨sep, hsep⟩ := mapM_isSome hsides
  have hrow : ∀ ts : List Text, ts.length = headers.length →
      ∃ ws, Cells aligns (widths.map (max · 3)) ts ws :=
    fun ts hts => exists_cells (by omega) (by omega)
  obtain ⟨header, hheader⟩ := hrow headers rfl
  obtain ⟨body, hbody⟩ := exists_forall₂ fun ts hts => hrow ts (hrows ts hts)
  exact ⟨widths, sep, header, body, mapM_eq_some_iff.mp hwidths, mapM_eq_some_iff.mp hsep,
    hheader, hbody⟩

end Parts

/-- **A table of the report is read as its cells.** There is a table exactly when every row has the
columns of the headers and every column has a side. Markdown reads it as the headers, the sides and
the rows that were given, whatever pipes and backslashes their cells hold, only without the blanks
around them, and its lines are equally long. -/
theorem table_comes_back {headers : List Text} {rows : List (List Text)} {aligns : List Align}
    (hne : headers ≠ []) :
    ((∃ lines, mdTable headers rows aligns = some lines) ↔
      (∀ ts ∈ rows, ts.length = headers.length) ∧
        headers.length ≤ (alignsOf headers.length aligns).length) ∧
    ∀ lines, mdTable headers rows aligns = some lines →
      read lines = some ⟨headers.map trim, (alignsOf headers.length aligns).take headers.length,
        rows.map (·.map trim)⟩ ∧
      ∀ l ∈ lines, ∀ m ∈ lines, l.length = m.length := by
  refine ⟨⟨?_, ?_⟩, ?_⟩
  · rintro ⟨lines, hlines⟩
    obtain ⟨widths, sep, header, body, h, -⟩ := mdTable_eq_some_iff.mp hlines
    exact ⟨fun ts hts => h.row_length hts, h.columns_le⟩
  · rintro ⟨hrows, haligns⟩
    obtain ⟨widths, sep, header, body, h⟩ := exists_parts haligns hrows
    exact ⟨_, mdTable_eq_some_iff.mpr ⟨widths, sep, header, body, h, rfl⟩⟩
  · intro lines hlines
    obtain ⟨widths, sep, header, body, h, rfl⟩ := mdTable_eq_some_iff.mp hlines
    refine ⟨?_, ?_⟩
    · apply read_written hne _ h.first.padded h.delimits
      · rw [List.forall₂_and_left]
        refine ⟨fun ts hts => ?_, h.rest.imp fun ts ws hcells => Cells.padded hcells⟩
        rw [← List.length_pos_iff, h.row_length hts, List.length_pos_iff]
        exact hne
      · rw [List.length_take, Nat.min_eq_left h.columns_le]
    · intro l hl m hm
      have hmem : ∀ k, k ∈ rowLine header :: rowLine sep :: body.map rowLine →
          ∃ ws ∈ header :: sep :: body, rowLine ws = k := fun k hk => List.mem_map.mp hk
      obtain ⟨us, hus, rfl⟩ := hmem l hl
      obtain ⟨ws, hws, rfl⟩ := hmem m hm
      exact row_length_congr ((h.cells_widths us hus).trans (h.cells_widths ws hws).symm)

theorem table_comes_back_pipe :
    read ["| gate    |   n |".toList, "| :------ | --: |".toList, "| \\|rho\\| |   3 |".toList] =
      some ⟨["gate".toList, "n".toList], [.l, .r], [["|rho|".toList, "3".toList]]⟩ :=
  ((table_comes_back (by decide)).2 _
    (show mdTable ["gate".toList, "n".toList] [["|rho|".toList, "3".toList]] [] = _ by rfl)).1

end Analyze

end FakeBigLittle
