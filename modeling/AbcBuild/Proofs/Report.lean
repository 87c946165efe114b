/-
Module: AbcBuild.Proofs.Report
Purpose: What the report of a build shows.  Its classes are those of the sources, and each source has one
  scope in which all of its classes are written down.
Main exports: Part.mem_inOrder_iff, Part.Builds.mem_keys, Part.declared_of_sources,
  Compilation.Sound.build_shows
-/
import AbcBuild.Proofs.Unambiguous
import AbcBuild.Proofs.Success

namespace AbcBuild

variable {config : Config}

/-! ### The classes of a build -/

namespace Part

variable {parts : List (Part config)} {part : Part config} {l : Ledger config}

/-- A build works on every part. -/
theorem mem_inOrder_iff : part ∈ inOrder parts ↔ part ∈ parts := by
  refine ⟨mem_of_mem_inOrder, fun member => ?_⟩
  obtain ⟨i, held⟩ := List.mem_iff_getElem?.1 member
  refine List.mem_filterMap.2 ⟨i, Graph.mem_order ?_, held⟩
  rw [graph, Context.nodes_graphOf]
  exact List.mem_range.2 (List.getElem?_eq_some_iff.1 held).1

/-- The classes of a build are those of its parts. -/
theorem Builds.mem_keys (h : Builds parts l) (name : String) :
    name ∈ l.classes.keys ↔ ∃ part ∈ parts, name ∈ part.tree.classNames := by
  have published : ({} : Ledger config).publishAll (inOrder parts) = some l := h.published
  rw [Ledger.mem_keys_publishAll published]
  simp [mem_inOrder_iff, Table.keys, Table.empty]

theorem Builds.mem_of_get? (h : Builds parts l) {name : String} (found : l.classes.get? name = some part) :
    part ∈ parts := by
  rcases Ledger.mem_of_publishAll h.published found with placed | none
  · exact mem_of_mem_inOrder placed
  · cases none

end Part

/-! ### Definitions of a block -/

namespace Resolve

open Abc

variable {file : File}

/-- What a script defines besides classes is among the names of its traits. -/
def Scripts.Listed (found : Scripts) : Prop := ∀ d ∈ found.definitions, d.1 ∈ found.topLevel

theorem Scripts.Listed.scriptTrait {found found' : Scripts} {info : TraitInfo} (h : found.Listed)
    (step : Resolve.scriptTrait file found info = .ok found') : found'.Listed := by
  obtain ⟨name, -, rest⟩ := bind_eq_ok.1 step
  have old : ∀ d ∈ found.definitions, d.1 ∈ found.topLevel ++ [name] :=
    fun d held => List.mem_append_left _ (h d held)
  split at rest
  next =>
    obtain ⟨_, -, rest⟩ := bind_eq_ok.1 rest
    obtain ⟨tags, -, made⟩ := bind_eq_ok.1 rest
    cases made
    exact old
  next =>
    obtain ⟨definition, -, made⟩ := bind_eq_ok.1 rest
    cases made
    intro d held
    rcases List.mem_append.1 held with before | here
    · exact old d before
    · cases List.mem_singleton.1 here
      exact List.mem_append_right _ (List.mem_singleton.2 rfl)

theorem listed_of_foldlM {traits : List TraitInfo} {found found' : Scripts} (h : found.Listed)
    (run : traits.foldlM (scriptTrait file) found = .ok found') : found'.Listed := by
  induction traits generalizing found with
  | nil =>
    cases run
    exact h
  | cons info rest ih =>
    rw [List.foldlM_cons] at run
    obtain ⟨found₁, step, later⟩ := bind_eq_ok.1 run
    exact ih (h.scriptTrait step) later

end Resolve

namespace Part

theorem definitions_listed {part : Part config} {p : Program} (htree : part.tree = .abc p) :
    ∀ d ∈ p.definitions, d.1 ∈ p.topLevel := by
  obtain ⟨-, -, decoded, -⟩ := of_abc htree
  obtain ⟨file, -, resolved⟩ := bind_eq_ok.1 decoded
  obtain ⟨found, scripts, rest⟩ := bind_eq_ok.1 resolved
  obtain ⟨classes, -, made⟩ := bind_eq_ok.1 rest
  cases made
  exact Resolve.listed_of_foldlM (fun _ none => (List.not_mem_nil none).elim) scripts

end Part

/-- If the source is a block, its classes are among its definitions. -/
def Source.declaresClasses (config : Config) (s : Source) : Bool :=
  match s.tree? config with
  | some (.abc p) => p.classes.all fun c => p.topLevel.contains c.name
  | _ => true

namespace Part

/-- If the classes of each block are among its definitions, all that parts know is. -/
theorem declared_of_sources {parts : List (Part config)}
    (h : ∀ part ∈ parts, part.source.declaresClasses config = true) : Declared parts := by
  intro part member q knows
  have checked := h part member
  rw [Source.declaresClasses, part.parsed] at checked
  cases htree : part.tree with
  | abc p =>
    rw [htree] at knows checked
    rcases Bool.or_eq_true_iff.1 knows with name | definition
    · obtain ⟨c, held, rfl⟩ := List.mem_map.1 (List.contains_iff_mem.1 name)
      exact List.contains_iff_mem.1 (List.all_eq_true.1 checked c held)
    · obtain ⟨d, held, rfl⟩ := List.mem_map.1 (List.contains_iff_mem.1 definition)
      exact definitions_listed htree d held
  | properties file =>
    rw [htree] at knows
    exact List.mem_singleton.2 (of_decide_eq_true knows)

end Part

/-! ### What is shown -/

namespace Compilation

variable {c : Compilation} {past : List (List Source)} {rest : List Edit}

/-- A build that succeeds shows the classes of its sources, each source in a scope of its own. -/
theorem Sound.build_shows (h : c.Sound config past rest) {r : BuildReport} (ok : c.build.1 = .ok r) :
    ∃ (parts : List (Part config)) (l : Ledger config) (scope : Part config → Scope),
      parts.map Part.source = c.sources.values ∧ Part.Builds parts l ∧
      r.bytecode = Table.ofList (parts.map fun part => (part.source.name, part.bytecode)) ∧
      r.classes.keys = l.classes.keys ∧
      ∀ name ∈ r.classes.keys, ∃ part ∈ parts, ∃ d, c.published? name = some d ∧
        part.tree.shown? (scope part) part.source.name name = some d ∧ l.classes.get? name = some part ∧
        part.SeenIn ((c.origins past).map (Part.ofSources config)) (scope part) ∧
        (c.reusable = 0 → part.Sees (Part.known parts) parts (scope part)) := by
  obtain ⟨l, sources, builds, bytecode, lists⟩ := h.build_report ok
  obtain ⟨scope, shown⟩ := lists.shown
  refine ⟨_, l, scope, sources, builds, bytecode, lists.keys, fun name member => ?_⟩
  obtain ⟨id, found⟩ := Option.isSome_iff_exists.1 ((Table.isSome_get? _ _).2 member)
  obtain ⟨part, d, known, hd, shows, admits⟩ := shown name id found
  refine ⟨part, builds.mem_of_get? known, d, ?_, shows, known, admits, fun fresh => ?_⟩
  · rw [published?_eq ok, found]
    exact hd.descriptor
  · rw [basis, if_pos fresh] at admits
    exact Part.seenIn_singleton.1 admits

end Compilation

end AbcBuild
