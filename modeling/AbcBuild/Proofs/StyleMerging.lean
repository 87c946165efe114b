/-
Module: AbcBuild.Proofs.StyleMerging
Purpose: The laws of merging tables of styles.  A merge adds the names that are new and leaves the others as
  they are; it reports the first declaration that differs from one of another class, and does so again when
  it is repeated.  If no class declares a style twice, it does not depend on the order of the tables whether
  a conflict is reported.
Main exports: StyleTable.keyed_iff_made, StyleTable.Clashes, StyleTable.reports_eq_nil_iff,
  StyleTable.merging_is_consistent
-/
import AbcBuild.Proofs.Styles
import Mathlib.Data.List.Pairwise
import Mathlib.Data.List.Perm.Basic

namespace AbcBuild

/-- Shapes are the same if nothing but the class is different. -/
theorem Style.sameShape_iff {a b : Style} : a.sameShape b = true ↔ { a with owner := b.owner } = b := by
  cases a
  cases b
  simp [Style.sameShape, and_assoc]

theorem Style.sameShape_symm {a b : Style} (h : a.sameShape b = true) : b.sameShape a = true := by
  rw [Style.sameShape_iff] at h ⊢
  rw [← h]

theorem Style.sameShape_trans {a b c : Style} (h : a.sameShape b = true) (h' : b.sameShape c = true) :
    a.sameShape c = true := by
  rw [Style.sameShape_iff] at h h' ⊢
  rw [← h', ← h]

namespace StyleTable

variable {table other : StyleTable} {style : Style} {styles : List Style}

/-! ### What a merge leaves -/

theorem add_of_known (h : style.name ∈ table.keys) : (add table style).1 = table := by
  rw [add, Table.contains, if_pos ((Table.isSome_get? _ _).2 h)]

theorem entries_add_of_new (h : style.name ∉ table.keys) :
    (add table style).1.entries = table.entries ++ [(style.name, style)] := by
  rw [add, Table.contains, if_neg fun known => h ((Table.isSome_get? _ _).1 known)]
  exact Table.put_of_absent h style

/-- Of declarations with distinct names those are appended whose names are new. -/
theorem entries_addList (distinct : (styles.map Style.name).Nodup) (table : StyleTable) :
    (addList table styles).1.entries =
      table.entries ++ (styles.filter fun s => s.name ∉ table.keys).map fun s => (s.name, s) := by
  induction styles generalizing table with
  | nil => exact (List.append_nil _).symm
  | cons style rest ih =>
    obtain ⟨absent, distinct⟩ := List.nodup_cons.1 distinct
    have step : (addList table (style :: rest)).1 = (addList (add table style).1 rest).1 := rfl
    rw [step, ih distinct]
    by_cases known : style.name ∈ table.keys
    · rw [add_of_known known, List.filter_cons_of_neg (by simpa using known)]
    · have entries := entries_add_of_new known
      have keys : (add table style).1.keys = table.keys ++ [style.name] := by simp [Table.keys, entries]
      have others : (rest.filter fun s => s.name ∉ (add table style).1.keys)
          = rest.filter fun s => s.name ∉ table.keys := by
        refine List.filter_congr fun s member => ?_
        have other : s.name ≠ style.name := fun same => absent (same ▸ List.mem_map_of_mem member)
        simp [keys, other]
      rw [entries, others, List.filter_cons_of_pos (by simpa using known), List.map_cons, List.append_assoc]
      rfl

/-- The tables with every style under its own name are those that declarations make. -/
theorem keyed_iff_made : table.Keyed ↔ ∃ styles, table = (addList .empty styles).1 := by
  constructor
  · intro h
    refine ⟨table.values, ?_⟩
    have entries := entries_addList (h.names ▸ h.distinct) .empty
    have all : (table.values.filter fun s => s.name ∉ (Table.empty : StyleTable).keys) = table.values :=
      List.filter_eq_self.2 fun s _ => rfl
    have same : table.values.map (fun s => (s.name, s)) = table.entries := by
      rw [Table.values, List.map_map]
      refine (List.map_congr_left fun entry member => ?_).trans (List.map_id _)
      exact Prod.ext (h.named _ _ ((Table.get?_eq_some_iff h.distinct).2 member)) rfl
    rw [all, same] at entries
    exact congrArg Table.mk entries.symm
  · rintro ⟨styles, rfl⟩
    exact keyed_empty.addList styles

/-- The names of a merged table are those of both, those of the first table first. -/
theorem keys_addAll (h : other.Keyed) (table : StyleTable) :
    (addAll table other).1.keys = table.keys ++ other.keys.filter fun name => name ∉ table.keys := by
  have entries := entries_addList (h.names ▸ h.distinct) table
  rw [Table.keys, addAll, entries, List.map_append, List.map_map, ← h.names, List.filter_map]
  rfl

/-- A merged table has the declarations of the first table and then those of the second. -/
theorem get?_addAll (h : other.Keyed) (table : StyleTable) (name : String) :
    (addAll table other).1.get? name = (table.get? name).or (other.get? name) := by
  rw [addAll, get?_addList]
  congr 1
  cases found : other.get? name with
  | none =>
    refine List.find?_eq_none.2 fun s member here => ?_
    have there := h.mem_values_iff.1 member
    rw [of_decide_eq_true here, found] at there
    cases there
  | some style =>
    obtain rfl := h.named name style found
    cases first : other.values.find? fun s => s.name = style.name with
    | none => exact absurd (decide_eq_true rfl) (List.find?_eq_none.1 first style (h.mem_values_iff.2 found))
    | some s =>
      have named : s.name = style.name := by simpa using List.find?_some first
      have there := h.mem_values_iff.1 (List.mem_of_find?_eq_some first)
      rw [named, found] at there
      exact there.symm

theorem Keyed.addAll (h : table.Keyed) (other : StyleTable) : (addAll table other).1.Keyed :=
  h.addList other.values

theorem mem_values_addAll (h : table.Keyed) (h' : other.Keyed) :
    style ∈ (addAll table other).1.values ↔
      style ∈ table.values ∨ style.name ∉ table.keys ∧ style ∈ other.values := by
  rw [(h.addAll other).mem_values_iff, h.mem_values_iff, h'.mem_values_iff, get?_addAll h',
    Option.or_eq_some_iff, ← Table.isSome_get?, Option.not_isSome_iff_eq_none]

/-! ### What a merge reports -/

/-- Another class declares the style in another way. -/
def Clashes (existing style : Style) : Prop :=
  existing.owner ≠ style.owner ∧ existing.sameShape style = false

/-- The declaration meets one of its name in the table that it clashes with. -/
def Meets (table : StyleTable) (style : Style) (c : StyleConflict) : Prop :=
  ∃ existing, table.get? style.name = some existing ∧ Clashes existing style ∧
    c = ⟨style.name, existing.owner, style.owner⟩

theorem conflict?_eq_some_iff_meets {c : StyleConflict} :
    conflict? table style = some c ↔ Meets table style c := by
  simp only [conflict?_eq_some_iff, Meets, Clashes, and_assoc]

/-- A merge reports what the first declaration meets that meets anything. -/
theorem conflict_addAll_eq_some_iff (h : other.Keyed) (table : StyleTable) (c : StyleConflict) :
    (addAll table other).2 = some c ↔ ∃ before style after, other.values = before ++ style :: after ∧
      Meets table style c ∧ ∀ earlier ∈ before, ∀ c', ¬Meets table earlier c' := by
  rw [conflict_addAll h, List.findSome?_eq_some_iff]
  simp only [Option.eq_none_iff_forall_ne_some, ne_eq, conflict?_eq_some_iff_meets]

/-- The second merge finds every declaration where the first one left it. -/
theorem addAll_addAll (h : other.Keyed) (table : StyleTable) :
    addAll (addAll table other).1 other = addAll table other := by
  have there (s : Style) (member : s ∈ other.values) : s.name ∈ (addAll table other).1.keys := by
    rw [← Table.isSome_get?, get?_addAll h, h.mem_values_iff.1 member]
    cases table.get? s.name <;> rfl
  refine Prod.ext ?_ ?_
  · have kept (merged : StyleTable) (styles : List Style) (known : ∀ s ∈ styles, s.name ∈ merged.keys) :
        (addList merged styles).1 = merged := by
      induction styles with
      | nil => rfl
      | cons style rest ih =>
        have step : (addList merged (style :: rest)).1 = (addList (add merged style).1 rest).1 := rfl
        rw [step, add_of_known (known style (.head _))]
        exact ih fun s member => known s (.tail _ member)
    exact kept _ _ there
  · rw [conflict_addAll h, conflict_addAll h, ← List.head?_filterMap, ← List.head?_filterMap]
    refine congrArg List.head? (List.filterMap_congr fun s member => ?_)
    cases found : table.get? s.name with
    | some existing =>
      refine conflict?_congr ?_
      rw [get?_addAll h, found, Option.some_or]
    | none =>
      -- the table has the declaration itself by now, which clashes with nothing
      have own : (addAll table other).1.get? s.name = some s := by
        rw [get?_addAll h, found, Option.none_or, h.mem_values_iff.1 member]
      rw [conflict?, conflict?, own, found]
      simp

/-! ### Many merges -/

/-- The conflicts that are reported when tables are merged into one, one after the other. -/
def reports : StyleTable → List StyleTable → List StyleConflict
  | _, [] => []
  | table, other :: rest => (addAll table other).2.toList ++ reports (addAll table other).1 rest

/-- No class declares the same style in both tables. -/
def OtherOwners (table other : StyleTable) : Prop :=
  ∀ a ∈ table.values, ∀ b ∈ other.values, a.name = b.name → a.owner ≠ b.owner

/-- What both tables declare has one shape. -/
def Alike (table other : StyleTable) : Prop :=
  ∀ a ∈ table.values, ∀ b ∈ other.values, a.name = b.name → a.sameShape b = true

theorem OtherOwners.symm (h : OtherOwners table other) : OtherOwners other table :=
  fun a member b member' same owners => h b member' a member same.symm owners.symm

theorem Alike.symm (h : Alike table other) : Alike other table :=
  fun a member b member' same => Style.sameShape_symm (h b member' a member same.symm)

/-- Between tables of other classes each difference is reported. -/
theorem conflict_addAll_eq_none_iff (h : table.Keyed) (h' : other.Keyed) (owners : OtherOwners table other) :
    (addAll table other).2 = none ↔ Alike table other := by
  rw [conflict_addAll h', List.findSome?_eq_none_iff]
  constructor
  · intro none a member b member' same
    by_contra differs
    have found : table.get? b.name = some a := same ▸ h.mem_values_iff.1 member
    have meets : Meets table b _ :=
      ⟨a, found, ⟨owners a member b member' same, Bool.eq_false_iff.2 differs⟩, rfl⟩
    rw [← conflict?_eq_some_iff_meets, none b member'] at meets
    cases meets
  · intro alike b member'
    refine Option.eq_none_iff_forall_ne_some.2 fun c conflict => ?_
    obtain ⟨a, found, ⟨-, differs⟩, -⟩ := conflict?_eq_some_iff_meets.1 conflict
    have same := h.named _ a found
    have shapes := alike a (h.mem_values_iff.2 (same ▸ found)) b member' same
    rw [differs] at shapes
    cases shapes

/-- A table is like a merged one if it is like both. -/
theorem alike_addAll_iff (h : table.Keyed) (h' : other.Keyed) (alike : Alike table other)
    (third : StyleTable) :
    Alike (addAll table other).1 third ↔ Alike table third ∧ Alike other third := by
  constructor
  · intro merged
    have first : Alike table third := fun a member => merged a ((mem_values_addAll h h').2 (.inl member))
    refine ⟨first, fun b member c member' same => ?_⟩
    by_cases known : b.name ∈ table.keys
    · -- the name has another declaration in the merged table, of the same shape
      obtain ⟨a, found⟩ := Option.isSome_iff_exists.1 ((Table.isSome_get? _ _).2 known)
      have named := h.named _ a found
      have held := h.mem_values_iff.2 (named ▸ found)
      exact Style.sameShape_trans (Style.sameShape_symm (alike a held b member named))
        (first a held c member' (named.trans same))
    · exact merged b ((mem_values_addAll h h').2 (.inr ⟨known, member⟩)) c member' same
  · rintro ⟨first, second⟩ a member
    rcases (mem_values_addAll h h').1 member with held | ⟨-, held⟩
    · exact first a held
    · exact second a held

/-- Where no class declares a style twice, nothing is reported exactly if any two tables are alike. -/
theorem reports_eq_nil_iff {tables : List StyleTable} (h : table.Keyed) (keyed : ∀ t ∈ tables, t.Keyed)
    (owners : (table :: tables).Pairwise OtherOwners) :
    reports table tables = [] ↔ (table :: tables).Pairwise Alike := by
  induction tables generalizing table with
  | nil => simp [reports]
  | cons other rest ih =>
    obtain ⟨h', keyed⟩ := List.forall_mem_cons.1 keyed
    obtain ⟨first, owners⟩ := List.pairwise_cons.1 owners
    obtain ⟨ours, first⟩ := List.forall_mem_cons.1 first
    obtain ⟨second, owners⟩ := List.pairwise_cons.1 owners
    have merged : ((addAll table other).1 :: rest).Pairwise OtherOwners := by
      refine List.pairwise_cons.2 ⟨fun t member a held => ?_, owners⟩
      rcases (mem_values_addAll h h').1 held with held | ⟨-, held⟩
      · exact first t member a held
      · exact second t member a held
    rw [reports, List.append_eq_nil_iff, ih (h.addAll other) keyed merged, Option.toList_eq_nil_iff,
      conflict_addAll_eq_none_iff h h' ours]
    simp only [List.pairwise_cons, List.forall_mem_cons]
    constructor
    · rintro ⟨alike, more, rest⟩
      have both (t : StyleTable) (member : t ∈ _) := (alike_addAll_iff h h' alike t).1 (more t member)
      exact ⟨⟨alike, fun t member => (both t member).1⟩, fun t member => (both t member).2, rest⟩
    · rintro ⟨⟨alike, first⟩, second, rest⟩
      exact ⟨alike, fun t member => (alike_addAll_iff h h' alike t).2 ⟨first t member, second t member⟩,
        rest⟩

theorem reports_empty_eq_nil_iff {tables : List StyleTable} (keyed : ∀ t ∈ tables, t.Keyed)
    (owners : tables.Pairwise OtherOwners) : reports .empty tables = [] ↔ tables.Pairwise Alike := by
  have nothing (R : Style → Style → Prop) (t : StyleTable) (a : Style)
      (member : a ∈ (Table.empty : StyleTable).values) : ∀ b ∈ t.values, a.name = b.name → R a b := by
        cases member
  rw [reports_eq_nil_iff keyed_empty keyed (List.pairwise_cons.2 ⟨fun t _ => nothing _ t, owners⟩),
    List.pairwise_cons]
  exact and_iff_right fun t _ => nothing _ t

/-- A merge adds what is new and keeps what was there.  It reports the first declaration that clashes, if
    any, and the same again when it is repeated.  Where no class declares a style twice, tables in any order
    lead to a report or to none. -/
theorem merging_is_consistent :
    (∀ table other : StyleTable, table.Keyed → other.Keyed →
      (addAll table other).1.keys = table.keys ++ (other.keys.filter fun name => name ∉ table.keys) ∧
      (∀ name ∈ table.keys, (addAll table other).1.get? name = table.get? name) ∧
      (∀ name ∉ table.keys, (addAll table other).1.get? name = other.get? name) ∧
      ((addAll table other).2.isSome = true ↔ ∃ style ∈ other.values, ∃ existing,
        table.get? style.name = some existing ∧ Clashes existing style) ∧
      (∀ c, (addAll table other).2 = some c ↔ ∃ before style after, other.values = before ++ style :: after ∧
        Meets table style c ∧ ∀ earlier ∈ before, ∀ c', ¬Meets table earlier c') ∧
      addAll (addAll table other).1 other = addAll table other) ∧
    ∀ tables tables' : List StyleTable, (∀ t ∈ tables, t.Keyed) → tables.Pairwise OtherOwners →
      tables.Perm tables' → (reports .empty tables ≠ [] ↔ reports .empty tables' ≠ []) := by
  refine ⟨fun table other _ h' => ⟨keys_addAll h' table, ?_, ?_, ?_, conflict_addAll_eq_some_iff h' table,
    addAll_addAll h' table⟩, ?_⟩
  · intro name known
    obtain ⟨style, found⟩ := Option.isSome_iff_exists.1 ((Table.isSome_get? _ _).2 known)
    rw [get?_addAll h', found, Option.some_or]
  · intro name new
    rw [← Table.isSome_get?, Option.not_isSome_iff_eq_none] at new
    rw [get?_addAll h', new, Option.none_or]
  · rw [conflict_addAll h', List.findSome?_isSome_iff]
    simp only [Option.isSome_iff_exists, conflict?_eq_some_iff_meets, Meets]
    constructor
    · rintro ⟨style, member, _, existing, found, clash, -⟩
      exact ⟨style, member, existing, found, clash⟩
    · rintro ⟨style, member, existing, found, clash⟩
      exact ⟨style, member, _, existing, found, clash, rfl⟩
  · intro tables tables' keyed owners perm
    have owners' := (perm.pairwise_iff OtherOwners.symm).1 owners
    rw [ne_eq, ne_eq, reports_empty_eq_nil_iff keyed owners,
      reports_empty_eq_nil_iff (fun t member => keyed t (perm.mem_iff.2 member)) owners',
      perm.pairwise_iff Alike.symm]

/-- The table of one style, which a class declares with some type. -/
def sizeBy (owner typeName : String) : StyleTable :=
  (addList .empty [⟨"size", some typeName, none, none, none, QName.unnamed owner⟩]).1

/-- Three classes declare a style, one of them in another way.  The conflict is met in any order. -/
theorem merging_is_consistent_sizes :
    (sizeBy "A" "Number").Keyed ∧ (sizeBy "B" "String").Keyed ∧
      addAll (addAll (sizeBy "A" "Number") (sizeBy "B" "String")).1 (sizeBy "B" "String")
        = (sizeBy "A" "Number", some ⟨"size", QName.unnamed "A", QName.unnamed "B"⟩) ∧
      [sizeBy "A" "Number", sizeBy "B" "String", sizeBy "C" "Number"].Pairwise OtherOwners ∧
      reports .empty [sizeBy "B" "String", sizeBy "A" "Number", sizeBy "C" "Number"] ≠ [] := by
  have keyed (owner typeName : String) : (sizeBy owner typeName).Keyed := keyed_empty.addList _
  have owners : [sizeBy "A" "Number", sizeBy "B" "String", sizeBy "C" "Number"].Pairwise OtherOwners := by
    unfold OtherOwners
    decide
  have again :=
    (merging_is_consistent.1 (sizeBy "A" "Number") (sizeBy "B" "String") (keyed ..) (keyed ..)).2.2.2.2.2
  refine ⟨keyed .., keyed .., again.trans (by decide), owners, ?_⟩
  refine (merging_is_consistent.2 _ _ (by simp [keyed]) owners (List.Perm.swap ..)).1 ?_
  decide

end StyleTable

end AbcBuild
