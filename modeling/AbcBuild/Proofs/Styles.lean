/-
Module: AbcBuild.Proofs.Styles
Purpose: What a table of styles holds and reports when others are merged into it.  The first declaration of a
  name stays, in the table of a unit as in that of the application.  So what a program declares first is
  compared with what the application has, and what it declares again is compared with nothing.
Main exports: StyleTable.Keyed, StyleTable.get?_addList, AbcFrontend.styles_reported_by_first_declaration,
  AbcFrontend.style_conflict_within_program
-/
import AbcBuild.Frontend.Abc
import AbcBuild.Proofs.Table

namespace AbcBuild

namespace StyleTable

variable {table other : StyleTable} {style : Style}

/-! ### What a table holds -/

/-- Every style stands under its own name, and under no other. -/
structure Keyed (table : StyleTable) : Prop where
  distinct : table.keys.Nodup
  named : ∀ name style, table.get? name = some style → style.name = name

theorem keyed_empty : Keyed .empty := ⟨List.nodup_nil, fun _ _ found => by cases found⟩

/-- A declaration is added if its name is new. -/
@[simp] theorem get?_add (table : StyleTable) (style : Style) (name : String) :
    (add table style).1.get? name = (table.get? name).or
    (if style.name = name then some style else none) := by
  unfold add
  split
  next present =>
    by_cases here : style.name = name
    · obtain ⟨existing, found⟩ := Option.isSome_iff_exists.1 present
      rw [← here, found, Option.some_or]
    · rw [if_neg here, Option.or_none]
  next absent =>
    rw [Table.get?_insert]
    by_cases here : style.name = name
    · have new : table.get? name = none := by
        rw [← here]
        exact Option.not_isSome_iff_eq_none.1 absent
      rw [if_pos here, if_pos here, new, Option.none_or]
    · rw [if_neg here, if_neg here, Option.or_none]

/-- Of the declarations of a name the first stays. -/
@[simp] theorem get?_addList (table : StyleTable) (styles : List Style) (name : String) :
    (addList table styles).1.get? name = (table.get? name).or (styles.find? fun s => s.name = name) := by
  induction styles generalizing table with
  | nil => rw [List.find?_nil, Option.or_none]; rfl
  | cons style rest ih =>
    have step : (addList table (style :: rest)).1 = (addList (add table style).1 rest).1 := rfl
    rw [step, ih, get?_add, Option.or_assoc, List.find?_cons]
    by_cases here : style.name = name <;> simp [here]

theorem Keyed.add (h : table.Keyed) (style : Style) : (add table style).1.Keyed where
  distinct := by
    unfold StyleTable.add
    split
    · exact h.distinct
    · exact Table.nodup_keys_insert h.distinct _ _
  named := by
    intro name found there
    rw [get?_add] at there
    rcases Option.or_eq_some_iff.1 there with known | ⟨-, new⟩
    · exact h.named name found known
    · split at new
      next here =>
        cases new
        exact here
      next => cases new

theorem Keyed.addList (h : table.Keyed) (styles : List Style) : (addList table styles).1.Keyed := by
  induction styles generalizing table with
  | nil => exact h
  | cons style rest ih => exact ih (h.add style)

theorem Keyed.names (h : table.Keyed) : table.values.map Style.name = table.keys :=
  Table.map_values h.distinct h.named

theorem Keyed.mem_values_iff (h : table.Keyed) :
    style ∈ table.values ↔ table.get? style.name = some style := by
  rw [Table.get?_eq_some_iff h.distinct, Table.values, List.mem_map]
  constructor
  · rintro ⟨entry, member, rfl⟩
    rw [h.named _ _ ((Table.get?_eq_some_iff h.distinct).2 member)]
    exact member
  · exact fun member => ⟨_, member, rfl⟩

/-! ### Conflicts -/

/-- A conflict is one with the declaration that has the name. -/
theorem conflict?_eq_some_iff {c : StyleConflict} : conflict? table style = some c ↔
    ∃ existing, table.get? style.name = some existing ∧ existing.owner ≠ style.owner ∧
      existing.sameShape style = false ∧ c = ⟨style.name, existing.owner, style.owner⟩ := by
  unfold conflict?
  cases found : table.get? style.name with
  | none => simp
  | some existing =>
    simp only [ne_eq, Bool.and_eq_true, decide_eq_true_eq, Bool.not_eq_true', Option.ite_none_right_eq_some,
      Option.some.injEq, and_assoc, exists_eq_left', eq_comm (a := c)]

theorem conflict?_congr (same : other.get? style.name = table.get? style.name) :
    conflict? other style = conflict? table style := by
  unfold conflict?
  rw [same]

@[simp] theorem conflict_add (table : StyleTable) (style : Style) :
    (add table style).2 = conflict? table style := by
  unfold add
  split
  next => rfl
  next absent =>
    have new : table.get? style.name = none := Option.not_isSome_iff_eq_none.1 absent
    rw [conflict?, new]

/-- Declarations of distinct names are compared with what the table has at the start. -/
theorem conflict_addList {styles : List Style} (distinct : (styles.map Style.name).Nodup)
    (table : StyleTable) :
    (addList table styles).2 = styles.findSome? (conflict? table) := by
  induction styles generalizing table with
  | nil => rfl
  | cons style rest ih =>
    obtain ⟨absent, distinct⟩ := List.nodup_cons.1 distinct
    have step : (addList table (style :: rest)).2 = (add table style).2.or
      (addList (add table style).1 rest).2 := rfl
    have others : rest.findSome? (conflict? (add table style).1) = rest.findSome? (conflict? table) := by
      rw [← List.head?_filterMap, ← List.head?_filterMap]
      refine congrArg List.head? (List.filterMap_congr fun s member => conflict?_congr ?_)
      have other : style.name ≠ s.name := fun same => absent (same ▸ List.mem_map_of_mem member)
      rw [get?_add, if_neg other, Option.or_none]
    rw [step, ih distinct, others, conflict_add, List.findSome?_cons]
    cases conflict? table style <;> rfl

theorem conflict_addAll (h : other.Keyed) (table : StyleTable) :
    (addAll table other).2 = other.values.findSome? (conflict? table) :=
  conflict_addList (h.names ▸ h.distinct) table

end StyleTable

/-! ### The styles of a program -/

/-- The program first declares a style in another way than the application has it, in another class. -/
def Program.Contradicts (program : Program) (application : StyleTable) (c : StyleConflict) : Prop :=
  ∃ existing style, application.get? c.name = some existing ∧
    (program.styles.find? fun s => s.name = c.name) = some style ∧ c.existing = existing.owner ∧
    c.declaredBy = style.owner ∧ existing.owner ≠ style.owner ∧ existing.sameShape style = false

namespace AbcFrontend

variable (program : Program) (source : Source)

/-- A new unit has the first declaration of each name. -/
theorem get?_styles_collect (name : String) :
    (collect program (BuildUnit.ofSource source)).styles.get? name = program.styles.find? fun s =>
    s.name = name := by
  refine (StyleTable.get?_addList _ _ name).trans ?_
  exact Option.none_or

theorem keyed_styles_collect : (collect program (BuildUnit.ofSource source)).styles.Keyed :=
  StyleTable.keyed_empty.addList program.styles

/-- The conflicts that the application meets in a new unit are those with first declarations. -/
theorem exists_conflict?_iff (application : StyleTable) (c : StyleConflict) :
    (∃ style ∈ (collect program (BuildUnit.ofSource source)).styles.values,
      StyleTable.conflict? application style = some c) ↔ program.Contradicts application c := by
  simp only [(keyed_styles_collect program source).mem_values_iff, get?_styles_collect,
    StyleTable.conflict?_eq_some_iff]
  constructor
  · rintro ⟨style, first, existing, known, owners, shapes, rfl⟩
    exact ⟨existing, style, known, first, rfl, rfl, owners, shapes⟩
  · rintro ⟨existing, style, known, first, other, own, owners, shapes⟩
    have named : style.name = c.name := by simpa using List.find?_some first
    refine ⟨style, named ▸ first, existing, named ▸ known, owners, shapes, ?_⟩
    rw [named, ← other, ← own]

end AbcFrontend

theorem log_publishStyles (u : BuildUnit) (cx : Context) :
    (publishStyles u cx).log = (StyleTable.addAll cx.registry.styles u.styles).2.elim cx.log fun c =>
      cx.log.report cx.config.styleSeverity (some u.source.name) c.message := by
  have same : (cx.registry.registerStyles u.styles).2 = (StyleTable.addAll cx.registry.styles u.styles).2 :=
    rfl
  simp only [publishStyles, same]
  cases (StyleTable.addAll cx.registry.styles u.styles).2 <;> rfl

namespace AbcFrontend

/-- When a program has been collected, its styles are published with at most one report.  There is one
    exactly if the first declaration of some name in the program differs from the one that the application
    has, of another class.  What the program declares later under the same name makes no difference. -/
theorem styles_reported_by_first_declaration (program : Program) (source : Source) (cx : Context) :
    (∀ c, program.Contradicts cx.registry.styles c → ∃ c', program.Contradicts cx.registry.styles c' ∧
      (publishStyles (collect program (BuildUnit.ofSource source)) cx).log
        = cx.log.report cx.config.styleSeverity (some source.name) c'.message) ∧
      ((∀ c, ¬program.Contradicts cx.registry.styles c) →
        (publishStyles (collect program (BuildUnit.ofSource source)) cx).log = cx.log) := by
  have meets := exists_conflict?_iff program source cx.registry.styles
  rw [log_publishStyles, StyleTable.conflict_addAll (keyed_styles_collect program source)]
  cases found : (collect program (BuildUnit.ofSource source)).styles.values.findSome?
      (StyleTable.conflict? cx.registry.styles) with
  | none =>
    refine ⟨fun c contradicts => ?_, fun _ => rfl⟩
    obtain ⟨style, member, conflict⟩ := (meets c).2 contradicts
    rw [List.findSome?_eq_none_iff.1 found style member] at conflict
    cases conflict
  | some c =>
    have contradicts := (meets c).1 (List.exists_of_findSome?_eq_some found)
    exact ⟨fun _ _ => ⟨c, contradicts, rfl⟩, fun never => (never c contradicts).elim⟩

/-- A class with a style of some type. -/
def styledClass (name typeName : String) : ClassDef :=
  { (default : ClassDef) with
    name := QName.unnamed name
    metadata := [⟨"Style", [(some "name", "size"), (some "type", typeName)]⟩] }

/-- Two classes that declare a style, each in its own way. -/
def rivals : Program :=
  { (default : Program) with classes := [styledClass "A" "Number", styledClass "B" "String"] }

/-- Two classes of one program may declare a style in different ways, and nothing is reported. -/
theorem style_conflict_within_program :
    ¬∀ (program : Program) (source : Source) (cx : Context), cx.hasErrors = false →
      (∃ a ∈ program.styles, ∃ b ∈ program.styles, a.owner ≠ b.owner ∧ a.name = b.name ∧
        a.sameShape b = false) →
      ∃ d ∈ (publishStyles (collect program (BuildUnit.ofSource source)) cx).log.entries,
        ∃ name existing declaredBy, d.message = .styleConflict name existing declaredBy := by
  intro reported
  have declared : ∃ a ∈ rivals.styles, ∃ b ∈ rivals.styles, a.owner ≠ b.owner ∧ a.name = b.name ∧
      a.sameShape b = false := by
    decide
  have silent : (publishStyles (collect rivals (BuildUnit.ofSource default))
      (Context.start {} {})).log.entries = [] := by
    decide
  obtain ⟨d, member, -⟩ := reported rivals default (Context.start {} {}) rfl declared
  rw [silent] at member
  cases member

end AbcFrontend

end AbcBuild
