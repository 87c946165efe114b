/-
Module: AbcBuild.Proofs.Table
Purpose: What a table answers after its operations, and in which order its keys stand.
Main exports: Table.get?_insert, Table.keys_insert, Table.ext_get?, Table.insertAll_insertAll
-/
import AbcBuild.Table
import Mathlib.Data.List.Nodup

namespace AbcBuild.Table

variable {κ ν : Type} [DecidableEq κ] (key key' : κ) (value : ν) (entries : List (κ × ν))

/-! ### Entries -/

@[simp] theorem lookup_put : lookup key' (put key value entries) =
    if key = key' then some value else lookup key' entries := by
  induction entries with
  | nil => simp [put, lookup]
  | cons entry rest ih =>
    obtain ⟨k, v⟩ := entry
    by_cases here : k = key
    · by_cases asked : key = key' <;> simp_all [put, lookup]
    · by_cases asked : k = key' <;> simp_all [put, lookup]
      exact fun h => absurd h.symm here

/-- A key keeps its place, and a new one comes last. -/
theorem fst_put : (put key value entries).map Prod.fst
    = if key ∈ entries.map Prod.fst then entries.map Prod.fst else entries.map Prod.fst ++ [key] := by
  induction entries with
  | nil => simp [put]
  | cons entry rest ih =>
    obtain ⟨k, v⟩ := entry
    by_cases here : k = key
    · simp [put, here]
    · have elsewhere : key ≠ k := fun h => here h.symm
      simp only [put, if_neg here, List.map_cons, ih, List.mem_cons, elsewhere, false_or]
      split <;> simp

@[simp] theorem isSome_lookup : (lookup key entries).isSome = true ↔ key ∈ entries.map Prod.fst := by
  induction entries with
  | nil => simp [lookup]
  | cons entry rest ih =>
    obtain ⟨k, v⟩ := entry
    by_cases here : k = key
    · simp [lookup, here]
    · have elsewhere : key ≠ k := fun h => here h.symm
      simpa [lookup, here, elsewhere] using ih

variable {key value entries} {t : Table κ ν}

theorem mem_of_lookup (h : lookup key entries = some value) : (key, value) ∈ entries := by
  induction entries with
  | nil => cases h
  | cons entry rest ih =>
    obtain ⟨k, v⟩ := entry
    by_cases here : k = key
    · simp_all [lookup]
    · rw [lookup, if_neg here] at h
      exact .tail _ (ih h)

/-- If keys are distinct, every entry can be found. -/
theorem lookup_of_mem (distinct : (entries.map Prod.fst).Nodup) (h : (key, value) ∈ entries) :
    lookup key entries = some value := by
  induction entries with
  | nil => cases h
  | cons entry rest ih =>
    obtain ⟨k, v⟩ := entry
    rw [List.map_cons, List.nodup_cons] at distinct
    rcases List.mem_cons.1 h with heq | later
    · cases heq
      simp [lookup]
    · have elsewhere : k ≠ key := by
        rintro rfl
        exact distinct.1 (List.mem_map.2 ⟨_, later, rfl⟩)
      rw [lookup, if_neg elsewhere]
      exact ih distinct.2 later

@[simp] theorem lookup_append (key : κ) (first second : List (κ × ν)) :
    lookup key (first ++ second) = (lookup key first).or (lookup key second) := by
  induction first with
  | nil => simp [lookup]
  | cons entry rest ih =>
    obtain ⟨k, v⟩ := entry
    by_cases here : k = key <;> simp [lookup, here, ih]

@[simp] theorem lookup_map {α : Type} (key : κ) (make : κ → ν → α) (entries : List (κ × ν)) :
    lookup key (entries.map fun entry => (entry.1, make entry.1 entry.2)) = (lookup key entries).map
      (make key) := by
  induction entries with
  | nil => rfl
  | cons entry rest ih =>
    obtain ⟨k, v⟩ := entry
    by_cases here : k = key <;> simp [lookup, here, ih]

theorem lookup_drop {key' : κ} (distinct : (entries.map Prod.fst).Nodup) :
    lookup key' (drop key entries) = if key = key' then none else lookup key' entries := by
  induction entries with
  | nil => simp [drop, lookup]
  | cons entry rest ih =>
    obtain ⟨k, v⟩ := entry
    rw [List.map_cons, List.nodup_cons] at distinct
    by_cases here : k = key
    · subst here
      by_cases asked : k = key'
      · subst asked
        have gone : lookup k rest = none := by
          rw [← Option.not_isSome_iff_eq_none, isSome_lookup]
          exact distinct.1
        simp [drop, gone]
      · simp [drop, lookup, asked]
    · by_cases asked : k = key'
      · subst asked
        have other : key ≠ k := fun h => here h.symm
        simp [drop, lookup, here, other]
      · simp [drop, lookup, here, asked, ih distinct.2]

theorem drop_sublist (key : κ) (entries : List (κ × ν)) : (drop key entries).Sublist entries := by
  induction entries with
  | nil => exact List.Sublist.refl _
  | cons entry rest ih =>
    obtain ⟨k, v⟩ := entry
    by_cases here : k = key
    · simp [drop, here]
    · simpa [drop, here] using ih

/-! ### Tables -/

@[simp] theorem get?_insert (t : Table κ ν) (key key' : κ) (value : ν) :
    (t.insert key value).get? key' = if key = key' then some value else t.get? key' :=
  lookup_put key key' value t.entries

@[simp] theorem keys_insert (t : Table κ ν) (key : κ) (value : ν) :
    (t.insert key value).keys = if key ∈ t.keys then t.keys else t.keys ++ [key] :=
  fst_put key value t.entries

@[simp] theorem isSome_get? (t : Table κ ν) (key : κ) : (t.get? key).isSome = true ↔ key ∈ t.keys :=
  isSome_lookup key t.entries

theorem mem_of_get? (h : t.get? key = some value) : (key, value) ∈ t.entries :=
  mem_of_lookup h

section

variable (distinct : t.keys.Nodup)
include distinct

/-- In a table whose keys are distinct, a key has the value that stands beside it. -/
theorem get?_eq_some_iff : t.get? key = some value ↔ (key, value) ∈ t.entries :=
  ⟨mem_of_lookup, lookup_of_mem distinct⟩

/-- If each value tells its key, the values tell the keys. -/
theorem map_values {key : ν → κ} (keyed : ∀ k value, t.get? k = some value → key value = k) :
    t.values.map key = t.keys := by
  rw [values, keys, List.map_map]
  exact List.map_congr_left fun entry held => keyed _ _ ((get?_eq_some_iff distinct).2 held)

theorem nodup_keys_insert (key : κ) (value : ν) : (t.insert key value).keys.Nodup := by
  rw [keys_insert]
  split
  · exact distinct
  next absent => exact List.nodup_append.2 ⟨distinct, List.nodup_singleton key, by
      intro a ha b hb
      rw [List.mem_singleton] at hb
      rintro rfl
      exact absent (hb ▸ ha)⟩

theorem nodup_keys_erase (key : κ) : (t.erase key).keys.Nodup :=
  distinct.sublist ((drop_sublist key t.entries).map Prod.fst)

@[simp] theorem get?_erase (key key' : κ) :
    (t.erase key).get? key' = if key = key' then none else t.get? key' :=
  lookup_drop distinct

end

@[simp] theorem get?_modify (t : Table κ ν) (key key' : κ) (change : ν → ν) :
    (t.modify key change).get? key' = if key = key' then (t.get? key').map change else t.get? key' := by
  unfold modify
  split
  next absent =>
    split
    next here => rw [← here, absent, Option.map_none]
    next => rfl
  next value found =>
    rw [get?_insert]
    split
    next here => rw [← here, found, Option.map_some]
    next => rfl

@[simp] theorem keys_modify (t : Table κ ν) (key : κ) (change : ν → ν) :
    (t.modify key change).keys = t.keys := by
  unfold modify
  split
  · rfl
  next value found =>
    have present : key ∈ t.keys := (isSome_get? t key).1 (by rw [found]; rfl)
    rw [keys_insert, if_pos present]

/-! ### Many entries -/

/-- Keys in the order in which they first come, after those that are known. -/
def enter (known : List κ) : List κ → List κ
  | [] => known
  | key :: rest => enter (if key ∈ known then known else known ++ [key]) rest

@[simp] theorem enter_append (known first second : List κ) :
    enter known (first ++ second) = enter (enter known first) second := by
  induction first generalizing known with
  | nil => rfl
  | cons key rest ih => exact ih _

@[simp] theorem mem_enter (known more : List κ) (key : κ) :
    key ∈ enter known more ↔ key ∈ known ∨ key ∈ more := by
  induction more generalizing known with
  | nil => simp [enter]
  | cons first rest ih =>
    rw [enter, ih]
    by_cases present : first ∈ known
    · rw [if_pos present, List.mem_cons]
      constructor
      · rintro (h | h)
        · exact Or.inl h
        · exact Or.inr (Or.inr h)
      · rintro (h | rfl | h)
        · exact Or.inl h
        · exact Or.inl present
        · exact Or.inr h
    · rw [if_neg present, List.mem_append, List.mem_singleton, List.mem_cons, or_assoc]

theorem nodup_enter {known : List κ} (distinct : known.Nodup) (more : List κ) :
    (enter known more).Nodup := by
  induction more generalizing known with
  | nil => exact distinct
  | cons first rest ih =>
    refine ih ?_
    split
    · exact distinct
    next absent => simpa [List.nodup_append] using ⟨distinct, fun a ha h => absent (h ▸ ha)⟩

/-- To enter keys is the same as to enter them without repetitions. -/
theorem enter_enter (known first more : List κ) :
    enter known (enter first more) = enter (enter known first) more := by
  induction more generalizing first with
  | nil => rfl
  | cons key rest ih =>
    rw [enter, ih, enter]
    by_cases present : key ∈ first
    · rw [if_pos present, if_pos ((mem_enter known first key).2 (Or.inr present))]
    · rw [if_neg present, enter_append]
      rfl

/-- Of the keys that are entered, those follow that are not known. -/
theorem enter_eq (known more : List κ) :
    enter known more = known ++ (enter [] more).filter fun key => key ∉ known := by
  induction more generalizing known with
  | nil => simp [enter]
  | cons key rest ih =>
    have first : enter [] (key :: rest) = key :: (enter [] rest).filter fun k => k ∉ [key] := ih [key]
    rw [first, enter, ih, List.filter_cons, List.filter_filter]
    by_cases present : key ∈ known
    · have other (k : κ) : (k ∉ known ∧ k ∉ [key]) ↔ k ∉ known :=
        ⟨And.left, fun h => ⟨h, fun same => h (List.mem_singleton.1 same ▸ present)⟩⟩
      simp only [present, if_true, not_true_eq_false, decide_false, Bool.false_eq_true, if_false,
        ← Bool.decide_and, other]
    · simp [present]

/-- Put in entries one after the other. -/
def insertAll (t : Table κ ν) (entries : List (κ × ν)) : Table κ ν :=
  entries.foldl (fun t entry => t.insert entry.1 entry.2) t

theorem ofList_eq_insertAll (entries : List (κ × ν)) : ofList entries = insertAll empty entries := rfl

@[simp] theorem insertAll_append (t : Table κ ν) (first second : List (κ × ν)) :
    t.insertAll (first ++ second) = (t.insertAll first).insertAll second :=
  List.foldl_append

/-- Keys that are added come in the order in which they first appear. -/
@[simp] theorem keys_insertAll (t : Table κ ν) (entries : List (κ × ν)) :
    (t.insertAll entries).keys = enter t.keys (entries.map Prod.fst) := by
  induction entries generalizing t with
  | nil => rfl
  | cons entry rest ih =>
    rw [insertAll, List.foldl_cons, ← insertAll, ih, keys_insert]
    rfl

/-- Of several values of a key the last counts. -/
@[simp] theorem get?_insertAll (t : Table κ ν) (entries : List (κ × ν)) (key : κ) :
    (t.insertAll entries).get? key = (lookup key entries.reverse).or (t.get? key) := by
  induction entries generalizing t with
  | nil => simp [insertAll, lookup]
  | cons entry rest ih =>
    rw [insertAll, List.foldl_cons, ← insertAll, ih, get?_insert, List.reverse_cons, lookup_append]
    by_cases here : entry.1 = key <;> simp [lookup, here]

/-- What is found in a table was entered. -/
theorem mem_of_get?_insertAll (h : (insertAll empty entries).get? key = some value) :
    (key, value) ∈ entries := by
  rw [get?_insertAll] at h
  rcases Option.or_eq_some_iff.1 h with own | ⟨-, none⟩
  · exact List.mem_reverse.1 (mem_of_lookup own)
  · cases none

/-- A key whose entries all have one value has that value. -/
theorem get?_insertAll_eq {value : Option ν} (h : ∀ v, (key, v) ∈ entries ↔ value = some v) :
    (insertAll empty entries).get? key = value := by
  rw [get?_insertAll]
  cases found : lookup key entries.reverse with
  | some v => exact ((h v).1 (List.mem_reverse.1 (mem_of_lookup found))).symm
  | none =>
    cases value with
    | none => rfl
    | some v =>
      have present : (lookup key entries.reverse).isSome = true := by
        rw [isSome_lookup, List.mem_map]
        exact ⟨(key, v), List.mem_reverse.2 ((h v).2 rfl), rfl⟩
      rw [found] at present
      cases present

theorem get?_ofList_eq_some_iff (distinct : (entries.map Prod.fst).Nodup) :
    (ofList entries).get? key = some value ↔ (key, value) ∈ entries := by
  have start : (empty : Table κ ν).get? key = none := rfl
  rw [ofList_eq_insertAll, get?_insertAll, start, Option.or_none, ← List.mem_reverse]
  refine ⟨mem_of_lookup, lookup_of_mem ?_⟩
  rwa [List.map_reverse, List.nodup_reverse]

/-- Entries under distinct keys make the same table in any order. -/
theorem get?_ofList_perm {entries' : List (κ × ν)} (distinct : (entries.map Prod.fst).Nodup)
    (h : entries.Perm entries') (key : κ) : (ofList entries).get? key = (ofList entries').get? key := by
  refine Option.ext fun value => ?_
  rw [get?_ofList_eq_some_iff distinct, get?_ofList_eq_some_iff ((h.map Prod.fst).nodup_iff.1 distinct),
    h.mem_iff]

theorem nodup_keys_insertAll (distinct : t.keys.Nodup) (entries : List (κ × ν)) :
    (t.insertAll entries).keys.Nodup := by
  rw [keys_insertAll]
  exact nodup_enter distinct _

/-- A table holds what it is made of. -/
theorem insertAll_entries_get? (distinct : t.keys.Nodup) (other : Table κ ν) (key : κ) :
    (other.insertAll t.entries).get? key = (t.get? key).or (other.get? key) := by
  have backwards : (t.entries.reverse.map Prod.fst).Nodup := by
    rw [List.map_reverse, List.nodup_reverse]
    exact distinct
  have same : lookup key t.entries.reverse = t.get? key := by
    apply Option.ext
    intro value
    rw [get?_eq_some_iff distinct, ← List.mem_reverse]
    exact ⟨mem_of_lookup, lookup_of_mem backwards⟩
  rw [get?_insertAll, same]

theorem put_of_lookup (h : lookup key entries = some value) : put key value entries = entries := by
  induction entries with
  | nil => cases h
  | cons entry rest ih =>
    obtain ⟨k, v⟩ := entry
    by_cases here : k = key
    · simp_all [put, lookup]
    · rw [lookup, if_neg here] at h
      rw [put, if_neg here, ih h]

theorem put_of_absent (h : key ∉ entries.map Prod.fst) (value : ν) :
    put key value entries = entries ++ [(key, value)] := by
  induction entries with
  | nil => rfl
  | cons entry rest ih =>
    obtain ⟨k, v⟩ := entry
    rw [List.map_cons, List.mem_cons, not_or] at h
    rw [put, if_neg fun same => h.1 same.symm, ih h.2, List.cons_append]

/-- A table is made of its own entries. -/
theorem insertAll_entries (distinct : t.keys.Nodup) : insertAll empty t.entries = t := by
  have appended (entries known : List (κ × ν)) (h : ((known ++ entries).map Prod.fst).Nodup) :
      insertAll ⟨known⟩ entries = ⟨known ++ entries⟩ := by
    induction entries generalizing known with
    | nil => rw [List.append_nil]; rfl
    | cons entry rest ih =>
      have absent : entry.1 ∉ known.map Prod.fst := by
        intro member
        rw [List.map_append, List.map_cons] at h
        exact (List.nodup_append.1 h).2.2 _ member _ (.head _) rfl
      have first : insert ⟨known⟩ entry.1 entry.2 = ⟨known ++ [entry]⟩ :=
        congrArg Table.mk (put_of_absent absent entry.2)
      rw [List.append_cons] at h ⊢
      rw [← ih _ h, ← first]
      rfl
  exact appended t.entries [] distinct

/-- To put in what a table holds changes nothing. -/
theorem insertAll_of_get? (held : ∀ entry ∈ entries, t.get? entry.1 = some entry.2) :
    t.insertAll entries = t := by
  induction entries with
  | nil => rfl
  | cons entry rest ih =>
    have same : t.insert entry.1 entry.2 = t :=
      congrArg Table.mk (put_of_lookup (held entry (.head _)))
    rw [insertAll, List.foldl_cons, same]
    exact ih fun e he => held e (.tail _ he)

theorem insertAll_self (distinct : t.keys.Nodup) : t.insertAll t.entries = t :=
  insertAll_of_get? fun _ there => lookup_of_mem distinct there

/-- The last table is the first with the second put in. -/
structure Adopts (t added t' : Table κ ν) : Prop where
  keys : t'.keys = enter t.keys added.keys
  get? : ∀ key, t'.get? key = (added.get? key).or (t.get? key)

theorem adopts_insertAll (t : Table κ ν) (entries : List (κ × ν)) :
    t.Adopts (insertAll empty entries) (t.insertAll entries) where
  keys := by
    rw [keys_insertAll, keys_insertAll, enter_enter]
    rfl
  get? := by
    intro key
    have only : (insertAll empty entries).get? key = lookup key entries.reverse := by
      rw [get?_insertAll]
      exact Option.or_none
    rw [get?_insertAll, only]

theorem adopts_entries (t : Table κ ν) {added : Table κ ν} (distinct : added.keys.Nodup) :
    t.Adopts added (t.insertAll added.entries) where
  keys := keys_insertAll t added.entries
  get? := insertAll_entries_get? distinct t

/-- A table is told by its keys and their values. -/
theorem ext_get? {t' : Table κ ν} (distinct : t.keys.Nodup) (keys : t'.keys = t.keys)
    (same : ∀ key, t'.get? key = t.get? key) : t' = t := by
  have listed {t : Table κ ν} (distinct : t.keys.Nodup) :
      t.entries.map some = t.keys.map fun key => (t.get? key).map (Prod.mk key) := by
    rw [Table.keys, List.map_map]
    refine List.map_congr_left fun entry held => ?_
    rw [Function.comp_apply, (get?_eq_some_iff distinct).2 held]
    rfl
  have heq : t'.entries.map some = t.entries.map some := by
    rw [listed distinct, listed (keys ▸ distinct), keys]
    exact List.map_congr_left fun key _ => by rw [same]
  exact congrArg Table.mk ((List.map_injective_iff.2 fun _ _ => Option.some.inj) heq)

/-- To put in entries is to put in the table that they make. -/
theorem insertAll_insertAll (distinct : t.keys.Nodup) (entries : List (κ × ν)) :
    t.insertAll (insertAll empty entries).entries = t.insertAll entries := by
  have made := nodup_keys_insertAll (t := (empty : Table κ ν)) List.nodup_nil entries
  have once := adopts_insertAll t entries
  have again := adopts_entries t made
  exact ext_get? (nodup_keys_insertAll distinct entries) (again.keys.trans once.keys.symm)
    fun key => (again.get? key).trans (once.get? key).symm

end AbcBuild.Table

namespace AbcBuild

/-- In a list whose items have distinct keys, an item is found at its place by its key. -/
theorem findIdx?_eq_some_iff {α κ : Type} [DecidableEq κ] {items : List α} {key : α → κ}
    (distinct : (items.map key).Nodup) {k : κ} {i : Nat} :
    (items.findIdx? fun a => key a = k) = some i ↔ ∃ a, items[i]? = some a ∧ key a = k := by
  rw [List.findIdx?_eq_some_iff_getElem]
  constructor
  · rintro ⟨bound, here, -⟩
    exact ⟨_, List.getElem?_eq_getElem bound, by simpa using here⟩
  · rintro ⟨a, held, rfl⟩
    obtain ⟨bound, rfl⟩ := List.getElem?_eq_some_iff.1 held
    refine ⟨bound, by simp, fun j earlier same => ?_⟩
    have keys : (items.map key)[j]? = (items.map key)[i]? := by
      rw [List.getElem?_map, List.getElem?_map, held, List.getElem?_eq_getElem (Nat.lt_trans earlier bound)]
      simpa using same
    have twice := (List.getElem?_inj (by rw [List.length_map]; omega) distinct).1 keys
    omega

end AbcBuild
