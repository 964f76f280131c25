import FakeBigLittle.Json.Dumps

/-!
# A value through a file

`json.dump` and then `json.load`: a value comes back as it was, but for a float that is no
number. And what is read once can be written and read again.
-/

namespace Json

variable {F : Type}

/-! ## What is written is read -/

mutual

/-- What the text of a value is read as. -/
def encode (fl : Floats F) : Py F → Value
  | .none => .null
  | .bool b => .bool b
  | .int i => .num (Printf.int i)
  | .float x => if fl.finite x then .num (fl.repr x) else .null
  | .str s => .str (escape s)
  | .list vs => .arr (encodeList fl vs)
  | .dict items => .obj (encodeItems fl items)

def encodeList (fl : Floats F) : List (Py F) → List Value
  | [] => []
  | v :: vs => encode fl v :: encodeList fl vs

def encodeItems (fl : Floats F) : List (Text × Py F) → List (Text × Value)
  | [] => []
  | (k, v) :: items => (escape k, encode fl v) :: encodeItems fl items

end

section RoundTrip

variable (fl : Floats F)

theorem dumpsList_eq (indent level : Nat) (vs : List (Py F)) :
    dumpsList fl indent level vs = vs.map (dumps fl indent level) := by
  induction vs with
  | nil => rfl
  | cons v vs ih => rw [dumpsList, ih, List.map_cons]

theorem dumpsItems_eq (indent level : Nat) (items : List (Text × Py F)) :
    dumpsItems fl indent level items = items.map fun e => item e.1 (dumps fl indent level e.2) := by
  induction items with
  | nil => rfl
  | cons e items ih => rw [dumpsItems, ih, List.map_cons]

theorem encodeList_eq (vs : List (Py F)) : encodeList fl vs = vs.map (encode fl) := by
  induction vs with
  | nil => rfl
  | cons v vs ih => rw [encodeList, ih, List.map_cons]

theorem encodeItems_eq (items : List (Text × Py F)) :
    encodeItems fl items = items.map fun e => (escape e.1, encode fl e.2) := by
  induction items with
  | nil => rfl
  | cons e items ih => rw [encodeItems, ih, List.map_cons]

theorem reloadItems_eq (items : List (Text × Py F)) :
    reloadItems fl items = Dict.mapValues (reload fl) items := by
  induction items with
  | nil => rfl
  | cons e items ih =>
    rw [reloadItems, ih]
    rfl

theorem writes_special {t : Text}
    (h : t ∈ ["NaN".toList, "Infinity".toList, "-Infinity".toList]) : Writes t .null := by
  simp only [List.mem_cons, List.not_mem_nil, or_false] at h
  rcases h with rfl | rfl | rfl
  · exact writes_of_give ⟨'N', _, rfl, rfl, by decide⟩ fun _ => rfl
  · exact writes_of_give ⟨'I', _, rfl, rfl, by decide⟩ fun _ => rfl
  · exact writes_of_give ⟨'-', _, rfl, rfl, by decide⟩ fun _ => rfl

/-- At every depth, the text of a value is read as that value. -/
theorem writes_dumps (indent : Nat) (v : Py F) :
    ∀ level, Writes (dumps fl indent level v) (encode fl v) := by
  induction v using Py.ind with
  | none => exact fun _ => writes_of_give ⟨'n', _, rfl, rfl, by decide⟩ fun _ => rfl
  | bool b =>
    intro level
    cases b with
    | true => exact writes_of_give ⟨'t', _, rfl, rfl, by decide⟩ fun _ => rfl
    | false => exact writes_of_give ⟨'f', _, rfl, rfl, by decide⟩ fun _ => rfl
  | int i => exact fun _ => writes_int i
  | float x =>
    intro level
    rw [dumps, encode]
    cases hx : fl.finite x with
    | true => exact writes_float (fl.isFloat x hx)
    | false => exact writes_special (fl.special x hx)
  | str s => exact fun _ => writes_quote s
  | list vs ih =>
    intro level
    have hall : ∀ p ∈ vs.map fun v => (dumps fl indent (level + indent) v, encode fl v),
        Writes p.1 p.2 := by
      intro p hp
      obtain ⟨v, hv, rfl⟩ := List.mem_map.mp hp
      exact ih v hv (level + indent)
    have h := writes_brackets hall indent level
    rw [dumps, encode, dumpsList_eq, encodeList_eq]
    rw [List.map_map, List.map_map] at h
    exact h
  | dict items ih =>
    intro level
    have hall : ∀ p ∈ items.map fun e => (e.1, dumps fl indent (level + indent) e.2, encode fl e.2),
        Writes p.2.1 p.2.2 := by
      intro p hp
      obtain ⟨e, he, rfl⟩ := List.mem_map.mp hp
      exact ih e he (level + indent)
    have h := writes_braces hall indent level
    rw [dumps, encode, dumpsItems_eq, encodeItems_eq]
    unfold itemTexts itemValues at h
    rw [List.map_map, List.map_map] at h
    exact h

variable {fl}

theorem readInt_int (i : Int) : readInt (Printf.int i) = i := by
  have hdigit : ∀ c ∈ Nat.toDigits 10 i.natAbs, c ≠ '-' := by
    rintro c hc rfl
    exact absurd (toDigits_isDigit hc) (by decide)
  unfold Printf.int sign
  by_cases hi : i < 0
  · simp only [hi, decide_true, if_true, List.singleton_append, readInt,
      Nat.ofDigitChars_ten_toDigits]
    omega
  · obtain ⟨c, ds, hds⟩ := List.exists_cons_of_ne_nil
      (Nat.toDigits_ne_nil (n := i.natAbs) (b := 10))
    have hc : c ≠ '-' := hdigit c (by rw [hds]; exact List.mem_cons_self)
    have hread : readInt (c :: ds) = (Nat.ofDigitChars 10 (c :: ds) 0 : Nat) := by
      unfold readInt
      split
      · rename_i heq
        exact absurd (List.cons.inj heq).1 hc
      · rfl
    simp only [hi, decide_false, Bool.false_eq_true, if_false, List.nil_append]
    rw [hds, hread, ← hds, Nat.ofDigitChars_ten_toDigits]
    omega

theorem int_not_float (i : Int) : isFloatText (Printf.int i) = false := by
  unfold isFloatText
  rw [List.any_eq_false]
  intro c hc
  rcases Printf.int_chars hc with h | rfl
  · have hne : ∀ d : Char, d.isDigit = false → c ≠ d := by
      rintro d hd rfl
      rw [h] at hd
      exact Bool.noConfusion hd
    simp [hne]
  · decide

theorem isFloat_text {t : Text} (h : IsFloat t) : isFloatText t = true := by
  obtain ⟨negative, n, fraction, exponent, rfl, hne, hfraction, hexponent⟩ := h
  unfold isFloatText
  rw [List.any_eq_true]
  rcases hfraction with rfl | ⟨ds, -, -, rfl⟩
  · rcases hexponent with rfl | ⟨s, ds, -, -, -, rfl⟩
    · exact absurd rfl hne
    · exact ⟨'e', by simp, rfl⟩
  · exact ⟨'.', by simp, rfl⟩

theorem keys_reloadItems (items : List (Text × Py F)) :
    Dict.keys (reloadItems fl items) = Dict.keys items := by
  rw [reloadItems_eq, Dict.keys_mapValues]

/-- The value that is read is the value that was written, but for what JSON cannot hold. -/
theorem toPy_encode {v : Py F} (h : Distinct v) : toPy fl (encode fl v) = some (reload fl v) := by
  induction v using Py.ind with
  | none => rfl
  | bool b => rfl
  | int i =>
    rw [encode, toPy, int_not_float, readInt_int]
    rfl
  | float x =>
    rw [encode, reload]
    cases hx : fl.finite x with
    | true =>
      simp only [if_true, toPy]
      rw [isFloat_text (fl.isFloat x hx), if_pos rfl, fl.parse_repr x hx]
    | false => rfl
  | str s =>
    rw [encode, toPy, unescape_escape]
    rfl
  | list vs ih =>
    cases h with
    | list hvs =>
      have hall : ∀ ws : List (Py F), (∀ v ∈ ws, v ∈ vs) →
          toPyList fl (encodeList fl ws) = some (reloadList fl ws) := by
        intro ws
        induction ws with
        | nil => exact fun _ => rfl
        | cons v ws ihws =>
          intro hmem
          obtain ⟨hv, hws⟩ := List.forall_mem_cons.mp hmem
          rw [encodeList, toPyList, ih v hv (hvs v hv), Option.bind_some, ihws hws]
          rfl
      rw [encode, toPy, hall vs fun _ hv => hv]
      rfl
  | dict items ih =>
    cases h with
    | dict hkeys hitems =>
      have hall : ∀ es : List (Text × Py F), (∀ e ∈ es, e ∈ items) →
          toPyItems fl (encodeItems fl es) = some (reloadItems fl es) := by
        intro es
        induction es with
        | nil => exact fun _ => rfl
        | cons e es ihes =>
          intro hmem
          obtain ⟨k, v⟩ := e
          obtain ⟨he, hes⟩ := List.forall_mem_cons.mp hmem
          rw [encodeItems, toPyItems, unescape_escape, Option.bind_some,
            ih (k, v) he (hitems (k, v) he), Option.bind_some, ihes hes]
          rfl
      have hnodup : (Dict.keys (reloadItems fl items)).Nodup := by rwa [keys_reloadItems]
      rw [encode, toPy, hall items fun _ he => he]
      simp only [Option.map_some, Dict.ofPairs_of_nodup hnodup]
      rfl

/-- **What `json.dump` writes, `json.load` reads.** -/
theorem load_dumps {v : Py F} (h : Distinct v) (indent level : Nat) :
    load fl (dumps fl indent level v) = some (reload fl v) := by
  have hwrites := writes_dumps fl indent v level
  unfold load loads
  rw [hwrites.ends, Option.bind_some, toPy_encode h]

/-! ## What is read can be written -/

/-- All floats in it are numbers. -/
inductive AllFinite (fl : Floats F) : Py F → Prop where
  | none : AllFinite fl .none
  | bool (b : Bool) : AllFinite fl (.bool b)
  | int (i : Int) : AllFinite fl (.int i)
  | float {x : F} (h : fl.finite x = true) : AllFinite fl (.float x)
  | str (s : Text) : AllFinite fl (.str s)
  | list {vs : List (Py F)} (h : ∀ v ∈ vs, AllFinite fl v) : AllFinite fl (.list vs)
  | dict {items : List (Text × Py F)} (h : ∀ e ∈ items, AllFinite fl e.2) :
      AllFinite fl (.dict items)

theorem reload_of_finite {v : Py F} (h : AllFinite fl v) : reload fl v = v := by
  induction v using Py.ind with
  | none => rfl
  | bool b => rfl
  | int i => rfl
  | float x =>
    cases h with
    | float hx => rw [reload, if_pos hx]
  | str s => rfl
  | list vs ih =>
    cases h with
    | list hvs =>
      rw [reload]
      congr 1
      induction vs with
      | nil => rfl
      | cons v vs ihvs =>
        obtain ⟨hv, hvs⟩ := List.forall_mem_cons.mp hvs
        obtain ⟨ihv, ihrest⟩ := List.forall_mem_cons.mp ih
        rw [reloadList, ihv hv, ihvs ihrest hvs]
  | dict items ih =>
    cases h with
    | dict hitems =>
      rw [reload]
      congr 1
      induction items with
      | nil => rfl
      | cons e items ihitems =>
        obtain ⟨he, hitems⟩ := List.forall_mem_cons.mp hitems
        obtain ⟨ihe, ihrest⟩ := List.forall_mem_cons.mp ih
        rw [reloadItems, ihe he, ihitems ihrest hitems]

/-- A value that comes out of a text has distinct keys. -/
theorem distinct_toPy {w : Value} {v : Py F} (h : toPy fl w = some v) : Distinct v := by
  suffices hall : ∀ v, toPy fl w = some v → Distinct v from hall v h
  refine @Value.rec (fun w => ∀ v, toPy fl w = some v → Distinct v)
    (fun ws => ∀ vs, toPyList fl ws = some vs → ∀ v ∈ vs, Distinct v)
    (fun ms => ∀ items, toPyItems fl ms = some items → ∀ e ∈ items, Distinct e.2)
    (fun m => ∀ v, toPy fl m.2 = some v → Distinct v)
    ?_ ?_ ?_ ?_ ?_ ?_ ?_ ?_ ?_ ?_ ?_ w
  · intro v hv
    obtain rfl := Option.some.inj hv
    exact .none
  · intro b v hv
    obtain rfl := Option.some.inj hv
    exact .bool b
  · intro t v hv
    rw [toPy, Option.some.injEq] at hv
    subst hv
    split_ifs
    · exact .float _
    · exact .int _
  · intro t v hv
    obtain ⟨s, -, rfl⟩ := Option.map_eq_some_iff.mp hv
    exact .str s
  · intro ws ih v hv
    obtain ⟨vs, hvs, rfl⟩ := Option.map_eq_some_iff.mp hv
    exact .list (ih vs hvs)
  · intro ms ih v hv
    obtain ⟨items, hitems, rfl⟩ := Option.map_eq_some_iff.mp hv
    exact .dict (Dict.nodup_ofPairs items) fun e he => ih items hitems e (Dict.mem_ofPairs he)
  · intro vs hvs
    obtain rfl := Option.some.inj hvs
    exact List.forall_mem_nil _
  · intro w ws ihw ihws vs hvs
    obtain ⟨v, hv, hrest⟩ := Option.bind_eq_some_iff.mp hvs
    obtain ⟨us, hus, rfl⟩ := Option.map_eq_some_iff.mp hrest
    exact List.forall_mem_cons.mpr ⟨ihw v hv, ihws us hus⟩
  · intro items hitems
    obtain rfl := Option.some.inj hitems
    exact List.forall_mem_nil _
  · intro m ms ihm ihms items hitems
    obtain ⟨k, w⟩ := m
    obtain ⟨k', -, hrest⟩ := Option.bind_eq_some_iff.mp hitems
    obtain ⟨v, hv, hrest⟩ := Option.bind_eq_some_iff.mp hrest
    obtain ⟨es, hes, rfl⟩ := Option.map_eq_some_iff.mp hrest
    exact List.forall_mem_cons.mpr ⟨ihm v hv, ihms es hes⟩
  · exact fun k w ih => ih

end RoundTrip

end Json
