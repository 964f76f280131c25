import Mathlib.Data.List.Induction
import Mathlib.Data.List.Nodup
import Mathlib.Order.Lattice

/-!
# Dictionaries

A dictionary keeps its keys in the order in which they came in. What is collected out of two
permutations of a list differs in that order only, and a sort by distinct keys forgets it.
-/

/-- The entries of a dictionary, in the order of insertion. -/
abbrev Dict (κ β : Type) := List (κ × β)

namespace Dict

variable {α β γ κ : Type}

/-! ## Sorting by a key -/

section Ordering

variable [LinearOrder κ]

/-- `sorted(xs, key=key)`, a stable sort. -/
def sortBy (key : α → κ) (xs : List α) : List α := xs.mergeSort fun x y => decide (key x ≤ key y)

theorem sortBy_perm (key : α → κ) (xs : List α) : (sortBy key xs).Perm xs := List.mergeSort_perm ..

theorem sortBy_sorted (key : α → κ) (xs : List α) :
    (sortBy key xs).Pairwise fun x y => key x ≤ key y := by
  have hsorted : (sortBy key xs).Pairwise fun x y => decide (key x ≤ key y) = true := by
    apply List.pairwise_mergeSort
    · intro x y z hxy hyz
      exact decide_eq_true (le_trans (of_decide_eq_true hxy) (of_decide_eq_true hyz))
    · intro x y
      simpa using le_total (key x) (key y)
  exact hsorted.imp of_decide_eq_true

/-- With distinct keys, the order before the sort does not matter. -/
theorem sortBy_congr {key : α → κ} {xs ys : List α} (h : xs.Perm ys) (hkeys : (xs.map key).Nodup) :
    sortBy key xs = sortBy key ys := by
  have hinj : ∀ x ∈ xs, ∀ y ∈ xs, key x = key y → x = y := fun x hx y hy =>
    List.inj_on_of_nodup_map hkeys hx hy
  have hperm : (sortBy key xs).Perm (sortBy key ys) :=
    (sortBy_perm key xs).trans (h.trans (sortBy_perm key ys).symm)
  refine hperm.eq_of_pairwise ?_ (sortBy_sorted key xs) (sortBy_sorted key ys)
  intro x y hx hy hxy hyx
  have hx' := (sortBy_perm key xs).mem_iff.mp hx
  have hy' := h.mem_iff.mpr ((sortBy_perm key ys).mem_iff.mp hy)
  exact hinj x hx' y hy' (le_antisymm hxy hyx)

theorem sortBy_mapValues (f : β → γ) (d : List (κ × β)) :
    sortBy Prod.fst (d.map fun e => (e.1, f e.2)) = (sortBy Prod.fst d).map fun e => (e.1, f e.2) :=
  (List.map_mergeSort (f := fun e : κ × β => (e.1, f e.2)) fun _ _ _ _ => rfl).symm

end Ordering

/-! ## Entries -/

def keys (d : Dict κ β) : List κ := d.map Prod.fst

def values (d : Dict κ β) : List β := d.map Prod.snd

/-- The same keys, with `f` of the values. -/
def mapValues (f : β → γ) (d : Dict κ β) : Dict κ γ := d.map fun e => (e.1, f e.2)

theorem keys_mapValues (f : β → γ) (d : Dict κ β) : keys (mapValues f d) = keys d := by
  unfold keys mapValues
  rw [List.map_map]
  rfl

/-- Two dictionaries with the same entries. -/
structure Alike (d d' : Dict κ β) : Prop where
  perm : d.Perm d'
  nodup : (keys d).Nodup

theorem Alike.nodup_right {d d' : Dict κ β} (h : Alike d d') : (keys d').Nodup :=
  (h.perm.map Prod.fst).nodup_iff.mp h.nodup

section Sorting

variable [LinearOrder κ]

/-- `sorted(d)` -/
def sortedKeys (d : Dict κ β) : List κ := sortBy id (keys d)

/-- `sorted(d.items())`, where the keys decide. -/
def sortedItems (d : Dict κ β) : List (κ × β) := sortBy Prod.fst d

variable {d d' : Dict κ β}

theorem Alike.sortedKeys (h : Alike d d') : sortedKeys d = sortedKeys d' :=
  sortBy_congr (h.perm.map Prod.fst) (by simpa using h.nodup)

theorem Alike.sortedItems (h : Alike d d') : sortedItems d = sortedItems d' :=
  sortBy_congr h.perm h.nodup

end Sorting

variable [DecidableEq κ]

/-! ## Lookup and update -/

def get (d : Dict κ β) (k : κ) : Option β := (d.find? fun e => e.1 = k).map Prod.snd

theorem mem_of_get {d : Dict κ β} {k : κ} {v : β} (h : get d k = some v) : (k, v) ∈ d := by
  obtain ⟨e, he, rfl⟩ := Option.map_eq_some_iff.mp h
  obtain rfl : e.1 = k := by simpa using List.find?_some he
  exact List.mem_of_find?_eq_some he

theorem get_eq_some {d : Dict κ β} (hd : (keys d).Nodup) {k : κ} {v : β} :
    get d k = some v ↔ (k, v) ∈ d := by
  constructor
  · exact mem_of_get
  · intro h
    unfold get
    obtain ⟨e, he⟩ : ∃ e, d.find? (fun e => e.1 = k) = some e :=
      Option.isSome_iff_exists.mp (List.find?_isSome.mpr ⟨_, h, by simp⟩)
    have hkey : e.1 = k := by simpa using List.find?_some he
    have hsame := List.inj_on_of_nodup_map hd (List.mem_of_find?_eq_some he) h hkey
    rw [he, hsame]
    rfl

theorem Alike.get {d d' : Dict κ β} (h : Alike d d') (k : κ) : get d k = get d' k := by
  apply Option.ext
  intro v
  rw [get_eq_some h.nodup, get_eq_some h.nodup_right, h.perm.mem_iff]

theorem get_mapValues (f : β → γ) (d : Dict κ β) (k : κ) :
    get (mapValues f d) k = (get d k).map f := by
  unfold get mapValues
  rw [List.find?_map, Option.map_map, Option.map_map]
  rfl

/-- `d.setdefault(k, dflt)`, and `f` on the value that is then there. -/
def update (k : κ) (dflt : β) (f : β → β) : Dict κ β → Dict κ β
  | [] => [(k, f dflt)]
  | e :: d => if e.1 = k then (k, f e.2) :: d else e :: update k dflt f d

theorem mem_keys_update {k k' : κ} {dflt : β} {f : β → β} {d : Dict κ β} :
    k' ∈ keys (update k dflt f d) ↔ k' = k ∨ k' ∈ keys d := by
  induction d with
  | nil => simp [update, keys]
  | cons e d ih =>
    unfold update
    split_ifs with hkey
    · subst hkey
      simp [keys]
    · unfold keys at ih ⊢
      rw [List.map_cons, List.mem_cons, ih, List.map_cons, List.mem_cons]
      exact or_left_comm

theorem nodup_update {k : κ} {dflt : β} {f : β → β} {d : Dict κ β} (hd : (keys d).Nodup) :
    (keys (update k dflt f d)).Nodup := by
  induction d with
  | nil => exact List.nodup_singleton k
  | cons e d ih =>
    obtain ⟨hnew, hrest⟩ := List.nodup_cons.mp hd
    unfold update
    split_ifs with hkey
    · subst hkey
      exact hd
    · refine List.nodup_cons.mpr ⟨?_, ih hrest⟩
      intro hmem
      rcases mem_keys_update.mp hmem with heq | hmem
      · exact hkey heq
      · exact hnew hmem

theorem get_update {k k' : κ} {dflt : β} {f : β → β} {d : Dict κ β} :
    get (update k dflt f d) k' = if k' = k then some (f ((get d k).getD dflt)) else get d k' := by
  induction d with
  | nil =>
    by_cases hk : k' = k
    · simp [update, get, hk]
    · simp [update, get, hk, Ne.symm hk]
  | cons e d ih =>
    unfold update
    by_cases hkey : e.1 = k
    · by_cases hk : k' = k
      · simp [get, hkey, hk]
      · simp [get, hkey, hk, Ne.symm hk]
    · rw [if_neg hkey]
      by_cases hk : e.1 = k'
      · subst hk
        simp [get, hkey]
      · unfold get at ih ⊢
        rw [List.find?_cons_of_neg (by simpa using hk), ih,
          List.find?_cons_of_neg (by simpa using hkey), List.find?_cons_of_neg (by simpa using hk)]

def erase (k : κ) (d : Dict κ β) : Dict κ β := d.filter fun e => e.1 ≠ k

theorem get_erase {k k' : κ} {d : Dict κ β} :
    get (erase k d) k' = if k' = k then none else get d k' := by
  unfold get erase
  rw [List.find?_filter]
  split_ifs with hk
  · subst hk
    simp
  · refine congrArg (Option.map Prod.snd) (congrArg (List.find? · d) (funext fun e => ?_))
    by_cases he : e.1 = k'
    · simp [he, hk]
    · simp [he]

theorem get_append (d d' : Dict κ β) (k : κ) : get (d ++ d') k = (get d k).or (get d' k) := by
  unfold get
  rw [List.find?_append]
  cases d.find? fun e => e.1 = k <;> rfl

theorem mem_keys_iff {d : Dict κ β} {k : κ} : k ∈ keys d ↔ get d k ≠ none := by
  unfold keys get
  simp [Option.map_eq_none_iff, List.find?_eq_none]

/-! ## What is collected out of a list -/

/-- Each element is added to the entry of its key. -/
def collect (key : α → κ) (dflt : β) (add : β → α → β) (xs : List α) : Dict κ β :=
  xs.foldl (fun d x => update (key x) dflt (fun v => add v x) d) []

section Collect

variable {key : α → κ} {dflt : β} {add : β → α → β}

theorem collect_append (xs : List α) (x : α) :
    collect key dflt add (xs ++ [x]) =
      update (key x) dflt (fun v => add v x) (collect key dflt add xs) := by
  unfold collect
  rw [List.foldl_append]
  rfl

theorem nodup_collect (xs : List α) : (keys (collect key dflt add xs)).Nodup := by
  induction xs using List.reverseRecOn with
  | nil => exact List.nodup_nil
  | append_singleton xs x ih =>
    rw [collect_append]
    exact nodup_update ih

theorem mem_keys_collect (dflt : β) (add : β → α → β) {xs : List α} {k : κ} :
    k ∈ keys (collect key dflt add xs) ↔ ∃ x ∈ xs, key x = k := by
  induction xs using List.reverseRecOn with
  | nil => simp [collect, keys]
  | append_singleton xs x ih =>
    rw [collect_append, mem_keys_update, ih]
    simp only [List.mem_append, List.mem_singleton]
    constructor
    · rintro (rfl | ⟨y, hy, hkey⟩)
      · exact ⟨x, .inr rfl, rfl⟩
      · exact ⟨y, .inl hy, hkey⟩
    · rintro ⟨y, hy | rfl, rfl⟩
      · exact .inr ⟨y, hy, rfl⟩
      · exact .inl rfl

theorem keys_collect_perm {xs ys : List α} (h : xs.Perm ys) :
    (keys (collect key dflt add xs)).Perm (keys (collect key dflt add ys)) := by
  refine (List.perm_ext_iff_of_nodup (nodup_collect xs) (nodup_collect ys)).mpr fun k => ?_
  rw [mem_keys_collect, mem_keys_collect]
  simp only [h.mem_iff]

/-- The entry of a key is collected out of the elements with that key. -/
theorem get_collect (xs : List α) (k : κ) :
    (get (collect key dflt add xs) k).getD dflt = (xs.filter (key · = k)).foldl add dflt := by
  induction xs using List.reverseRecOn with
  | nil => rfl
  | append_singleton xs x ih =>
    rw [collect_append, get_update, List.filter_append, List.foldl_append, ← ih]
    by_cases hk : k = key x
    · subst hk
      simp
    · simp [hk, Ne.symm hk]

theorem mem_collect {xs : List α} {k : κ} {v : β} :
    (k, v) ∈ collect key dflt add xs ↔
      (∃ x ∈ xs, key x = k) ∧ v = (xs.filter (key · = k)).foldl add dflt := by
  rw [← get_eq_some (nodup_collect xs), ← get_collect, ← mem_keys_collect dflt add]
  constructor
  · intro h
    refine ⟨?_, by rw [h]; rfl⟩
    exact List.mem_map_of_mem ((get_eq_some (nodup_collect xs)).mp h)
  · rintro ⟨hmem, rfl⟩
    obtain ⟨e, he, rfl⟩ := List.mem_map.mp hmem
    rw [(get_eq_some (nodup_collect xs)).mpr he]
    rfl

/-- Two permutations of a list are collected alike, up to what `f` does not see. -/
theorem collect_alike (f : β → γ) {xs ys : List α} (h : xs.Perm ys)
    (hf : ∀ k, f ((xs.filter (key · = k)).foldl add dflt) =
      f ((ys.filter (key · = k)).foldl add dflt)) :
    Alike (mapValues f (collect key dflt add xs)) (mapValues f (collect key dflt add ys)) := by
  have hnodup : ∀ zs, (keys (mapValues f (collect key dflt add zs))).Nodup := by
    intro zs
    rw [keys_mapValues]
    exact nodup_collect zs
  have hmem : ∀ zs k v, (k, v) ∈ mapValues f (collect key dflt add zs) ↔
      (∃ x ∈ zs, key x = k) ∧ v = f ((zs.filter (key · = k)).foldl add dflt) := by
    intro zs k v
    unfold mapValues
    constructor
    · intro hv
      obtain ⟨e, he, heq⟩ := List.mem_map.mp hv
      obtain ⟨rfl, rfl⟩ := Prod.mk.inj heq
      obtain ⟨hkey, hvalue⟩ := mem_collect.mp he
      exact ⟨hkey, by rw [hvalue]⟩
    · rintro ⟨hkey, rfl⟩
      exact List.mem_map_of_mem (f := fun e => (e.1, f e.2)) (mem_collect.mpr ⟨hkey, rfl⟩)
  refine ⟨(List.perm_ext_iff_of_nodup (hnodup xs).of_map (hnodup ys).of_map).mpr ?_, hnodup xs⟩
  rintro ⟨k, v⟩
  rw [hmem, hmem, hf]
  simp only [h.mem_iff]

end Collect

/-! ## Items that are set -/

/-- `d[k] = v` -/
def setItem (k : κ) (v : β) (d : Dict κ β) : Dict κ β := update k v (fun _ => v) d

/-- `dict(pairs)`: of pairs with one key, the last counts. -/
def ofPairs (pairs : List (κ × β)) : Dict κ β :=
  pairs.foldl (fun d e => setItem e.1 e.2 d) []

theorem nodup_setItem {d : Dict κ β} (h : (keys d).Nodup) (k : κ) (v : β) :
    (keys (setItem k v d)).Nodup := nodup_update h

theorem get_setItem (k k' : κ) (v : β) (d : Dict κ β) :
    get (setItem k v d) k' = if k' = k then some v else get d k' := by
  unfold setItem
  rw [get_update]

/-- A key that is new comes last. -/
theorem setItem_new {d : Dict κ β} {k : κ} (h : k ∉ keys d) (v : β) :
    setItem k v d = d ++ [(k, v)] := by
  unfold setItem
  induction d with
  | nil => rfl
  | cons e d ih =>
    unfold keys at h
    rw [List.map_cons, List.mem_cons, not_or] at h
    rw [update, if_neg (Ne.symm h.1), ih h.2, List.cons_append]

theorem mem_setItem {d : Dict κ β} {k : κ} {v : β} {e : κ × β} (h : e ∈ setItem k v d) :
    e = (k, v) ∨ e ∈ d := by
  unfold setItem at h
  induction d with
  | nil => exact Or.inl (List.mem_singleton.mp h)
  | cons a d ih =>
    unfold update at h
    split_ifs at h
    · exact (List.mem_cons.mp h).imp_right (List.mem_cons_of_mem _)
    · rcases List.mem_cons.mp h with rfl | h
      · exact Or.inr List.mem_cons_self
      · exact (ih h).imp_right (List.mem_cons_of_mem _)

theorem foldl_setItem {pairs : List (κ × β)} {d : Dict κ β}
    (h : (keys (d ++ pairs)).Nodup) :
    pairs.foldl (fun d e => setItem e.1 e.2 d) d = d ++ pairs := by
  induction pairs generalizing d with
  | nil => rw [List.append_nil]; rfl
  | cons e pairs ih =>
    have hnew : e.1 ∉ keys d := by
      unfold keys at h ⊢
      rw [List.map_append, List.map_cons] at h
      exact fun hmem => (List.nodup_append.mp h).2.2 _ hmem _ List.mem_cons_self rfl
    rw [List.foldl_cons, setItem_new hnew, ih (by rwa [List.append_assoc]), List.append_assoc]
    rfl

/-- Distinct keys are kept as they come. -/
theorem ofPairs_of_nodup {pairs : List (κ × β)} (h : (keys pairs).Nodup) :
    ofPairs pairs = pairs :=
  foldl_setItem (d := []) h

theorem nodup_ofPairs (pairs : List (κ × β)) : (keys (ofPairs pairs)).Nodup := by
  have hfold : ∀ d : Dict κ β, (keys d).Nodup →
      (keys (pairs.foldl (fun d e => setItem e.1 e.2 d) d)).Nodup := by
    induction pairs with
    | nil => exact fun _ h => h
    | cons e pairs ih => exact fun d h => ih _ (nodup_setItem h ..)
  exact hfold [] List.nodup_nil

theorem mem_ofPairs {pairs : List (κ × β)} {e : κ × β} (h : e ∈ ofPairs pairs) : e ∈ pairs := by
  have hfold : ∀ (pairs : List (κ × β)) (d : Dict κ β),
      e ∈ pairs.foldl (fun d e => setItem e.1 e.2 d) d → e ∈ d ∨ e ∈ pairs := by
    intro pairs
    induction pairs with
    | nil => exact fun _ h => Or.inl h
    | cons a pairs ih =>
      intro d h
      rcases ih _ h with h | h
      · rcases mem_setItem h with rfl | h
        · exact Or.inr List.mem_cons_self
        · exact Or.inl h
      · exact Or.inr (List.mem_cons_of_mem _ h)
  exact (hfold pairs [] h).resolve_left List.not_mem_nil

/-- A filter by keys does not see an item that it drops. -/
theorem filter_setItem_of_neg {p : κ → Bool} {k : κ} (hk : p k = false) (v : β) (d : Dict κ β) :
    (setItem k v d).filter (fun e => p e.1) = d.filter fun e => p e.1 := by
  unfold setItem
  induction d with
  | nil => simp [update, hk]
  | cons e d ih =>
    unfold update
    split_ifs with hkey
    · subst hkey
      simp [hk]
    · rw [List.filter_cons, List.filter_cons, ih]

theorem filter_setItem_of_pos {p : κ → Bool} {k : κ} (hk : p k = true) (v : β) (d : Dict κ β) :
    (setItem k v d).filter (fun e => p e.1) = setItem k v (d.filter fun e => p e.1) := by
  unfold setItem
  induction d with
  | nil => simp [update, hk]
  | cons e d ih =>
    rw [update]
    split_ifs with hkey
    · subst hkey
      simp [hk, update]
    · rw [List.filter_cons, List.filter_cons, ih]
      by_cases he : p e.1 = true
      · rw [if_pos he, if_pos he]
        exact (if_neg hkey).symm
      · rw [if_neg he, if_neg he]

theorem mapValues_setItem (f : β → γ) (k : κ) (v : β) (d : Dict κ β) :
    mapValues f (setItem k v d) = setItem k (f v) (mapValues f d) := by
  unfold setItem
  induction d with
  | nil => rfl
  | cons e d ih =>
    unfold mapValues at ih ⊢
    rw [update, List.map_cons, update]
    split_ifs
    · rfl
    · rw [List.map_cons, ih]

theorem mapValues_ofPairs (f : β → γ) (pairs : List (κ × β)) :
    mapValues f (ofPairs pairs) = ofPairs (mapValues f pairs) := by
  suffices hfold : ∀ d : Dict κ β, mapValues f (pairs.foldl (fun d e => setItem e.1 e.2 d) d) =
      (mapValues f pairs).foldl (fun d e => setItem e.1 e.2 d) (mapValues f d) from hfold []
  induction pairs with
  | nil => exact fun _ => rfl
  | cons e pairs ih =>
    intro d
    rw [List.foldl_cons, ih, mapValues_setItem]
    rfl

/-- The last of the pairs with a key is found. -/
theorem get_ofPairs (pairs : List (κ × β)) (k : κ) :
    get (ofPairs pairs) k = (pairs.reverse.find? fun e => e.1 = k).map Prod.snd := by
  induction pairs using List.reverseRecOn with
  | nil => rfl
  | append_singleton pairs e ih =>
    unfold ofPairs at ih ⊢
    rw [List.foldl_append, List.foldl_cons, List.foldl_nil, get_setItem, ih, List.reverse_append,
      List.reverse_singleton, List.singleton_append]
    by_cases hk : k = e.1
    · simp [hk]
    · simp [hk, Ne.symm hk]

end Dict
