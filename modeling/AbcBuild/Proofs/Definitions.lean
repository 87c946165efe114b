/-
Module: AbcBuild.Proofs.Definitions
Purpose: Which source defines a name, and the order of the units that follows from it, told by the parts of a
  build alone.
Main exports: Scheduler.defineList_eq, Part.graph, Context.Fits, Context.dependencyOrder_parts
-/
import AbcBuild.Proofs.Order
import AbcBuild.Proofs.Phases
import AbcBuild.Proofs.Registration

namespace AbcBuild

variable {config : Config}

/-! ### Noting definitions -/

namespace Part

variable {done : List (Part config)}

theorem definer_concat (done : List (Part config)) (part : Part config) (name : QName) :
    definer (done ++ [part]) name =
      (definer done name).or (if name ∈ part.tree.topLevel then some part.source.name else none) := by
  unfold definer
  rw [List.findSome?_append]
  by_cases here : name ∈ part.tree.topLevel <;> simp [here]

theorem clear_concat (h : Clear done) (part : Part config) :
    Clear (done ++ [part]) ↔
      ∀ name ∈ part.tree.topLevel, ∀ existing ∈ definer done name, existing = part.source.name := by
  constructor
  · intro clear name defined existing found
    obtain ⟨other, hother, defined', rfl⟩ := mem_of_definer found
    exact clear other (List.mem_append_left _ hother) part
      (List.mem_append_right _ (List.mem_singleton.2 rfl)) name defined' defined
  · intro free first hfirst second hsecond name defined defined'
    rcases List.mem_append.1 hfirst with old | new <;> rcases List.mem_append.1 hsecond with old' | new'
    · exact h first old second old' name defined defined'
    · cases List.mem_singleton.1 new'
      exact free name defined' first.source.name (h.definer old defined)
    · cases List.mem_singleton.1 new
      exact (free name defined second.source.name (h.definer old' defined')).symm
    · cases List.mem_singleton.1 new
      cases List.mem_singleton.1 new'
      rfl

end Part

namespace Scheduler

/-- The units define what their parts do.  It is an error that two sources define a name. -/
theorem defineList_eq {done rest : List (Part config)} {units : List BuildUnit}
    (fits : List.Forall₂ Part.Fits rest units) {cx : Context} (ok : cx.hasErrors = false)
    (known : ∀ name, cx.registry.definitions.get? name = Part.definer done name) (clear : Part.Clear done) :
    (Part.Clear (done ++ rest) ∧ ∃ definitions,
        units.foldl defineUnit cx = { cx with registry := { cx.registry with definitions := definitions } } ∧
        ∀ name, definitions.get? name = Part.definer (done ++ rest) name) ∨
      (¬Part.Clear (done ++ rest) ∧ (units.foldl defineUnit cx).hasErrors = true) := by
  induction fits generalizing done cx with
  | nil =>
    rw [List.append_nil]
    exact Or.inl ⟨clear, cx.registry.definitions, rfl, known⟩
  | @cons part u rest units fits _ ih =>
    obtain ⟨definitions, errors, defined, free, answers⟩ :=
      cx.registry.defineAll_answers part.source.name part.tree.topLevel
    have here : defineUnit cx u = errors.foldl
        (fun cx e => cx.report .error (some part.source.name) e.message)
        { cx with registry := { cx.registry with definitions := definitions } } := by
      rw [defineUnit, fits.source, fits.topLevel, defined]
    have clash : errors = [] ↔ Part.Clear (done ++ [part]) := by
      rw [free, Part.clear_concat clear]
      simp only [known]
    rw [List.append_cons, List.foldl_cons]
    by_cases fine : errors = []
    · subst fine
      rw [here]
      have known' : ∀ name, definitions.get? name = Part.definer (done ++ [part]) name := by
        intro name
        rw [answers, known, Part.definer_concat]
      exact ih ok known' (clash.1 rfl)
    · have reported : (defineUnit cx u).hasErrors = true := by
        rw [here, hasErrors_reports]
        cases errors with
        | nil => exact (fine rfl).elim
        | cons e more => exact Bool.or_true _
      have later := (Context.Evolves.foldl defineUnit_evolves units _).advances.hasErrors reported
      refine Or.inr ⟨fun all => fine (clash.2 ?_), later⟩
      intro a ha b hb
      exact all a (List.mem_append_left _ ha) b (List.mem_append_left _ hb)

end Scheduler

/-! ### The order of parts -/

namespace Part

/-- The place of the part that defines a name. -/
def ancestor? (parts : List (Part config)) (name : QName) : Option Nat :=
  (definer parts name).bind fun source => parts.findIdx? fun part => part.source.name = source

/-- The places of the parts that a part inherits from. -/
def ancestry (parts : List (Part config)) (index : Nat) : List Nat :=
  (parts[index]?.elim [] fun part => part.tree.dependencies.inheritance).filterMap fun n =>
    (meaning parts n).bind (ancestor? parts)

/-- The parts, with an edge from each to those that inherit from it. -/
def graph (parts : List (Part config)) : Graph := Context.graphOf (List.range parts.length) (ancestry parts)

/-- A source has one place. -/
theorem place_unique {parts : List (Part config)} (distinct : (parts.map fun part => part.source.name).Nodup)
    {i j : Nat} {other part : Part config} (hother : parts[i]? = some other) (hpart : parts[j]? = some part)
    (alike : other.source.name = part.source.name) : i = j := by
  have first := (findIdx?_eq_some_iff distinct).2 ⟨other, hother, alike⟩
  have second := (findIdx?_eq_some_iff distinct).2 ⟨part, hpart, rfl⟩
  exact Option.some.inj (first.symm.trans second)

end Part

namespace Context

variable {cx : Context} {parts : List (Part config)}

/-- Every part has a unit, which has what its source contributes. -/
def Fits (cx : Context) (parts : List (Part config)) : Prop :=
  cx.Holds parts fun _ part unit => ∃ u, unit = some u ∧ part.Fits u

theorem Holds.fits {b : Basis config} {store : ClassStore} {phase : Phase}
    (h : cx.Holds parts fun _ part unit => part.Reached b store phase unit) : cx.Fits parts := by
  refine h.imp fun index part unit _ holds => ?_
  obtain ⟨u, found, after, -⟩ := holds
  exact ⟨u, found, after.fits⟩

section

variable (h : cx.Fits parts)
include h

theorem Fits.unit? (index : Nat) :
    (parts[index]? = none ∧ cx.unit? index = none) ∨
      ∃ part u, parts[index]? = some part ∧ cx.unit? index = some u ∧ part.Fits u := by
  cases hpart : parts[index]? with
  | none => exact Or.inl ⟨rfl, by rw [Context.unit?, Holds.missing h hpart, Option.bind_none]⟩
  | some part =>
    obtain ⟨-, slot, u, rfl, fits⟩ := h.2 index part hpart
    exact Or.inr ⟨part, u, rfl, Context.unit?_eq slot, fits⟩

theorem Fits.unitIndices : cx.unitIndices = List.range parts.length := by
  unfold Context.unitIndices
  rw [h.1, List.filter_eq_self]
  intro index hindex
  rcases h.unit? index with ⟨outside, -⟩ | ⟨part, u, -, found, -⟩
  · have bound := List.getElem?_eq_none_iff.1 outside
    have within := List.mem_range.1 hindex
    omega
  · rw [found]
    rfl

theorem Fits.ancestor? (ground : cx.Grounded parts) (name : QName) :
    cx.ancestor? name = Part.ancestor? parts name := by
  unfold Context.ancestor? Part.ancestor?
  rw [Registry.definedIn?, ground.definitions]
  cases Part.definer parts name with
  | none => rfl
  | some source =>
    simp only [Option.bind_eq_bind, Option.bind_some, Holds.indexOf? h]
    cases found : parts.findIdx? fun part => part.source.name = source with
    | none => rfl
    | some index =>
      have within := (List.findIdx?_eq_some_iff_findIdx_eq.1 found).1
      rcases h.unit? index with ⟨outside, -⟩ | ⟨part, u, -, hu, -⟩
      · have bound := List.getElem?_eq_none_iff.1 outside
        omega
      · simp [hu]

theorem Fits.ancestry (ground : cx.Grounded parts) : cx.ancestry = Part.ancestry parts := by
  have ancestors : cx.ancestor? = Part.ancestor? parts := funext (h.ancestor? ground)
  funext index
  unfold Context.ancestry Part.ancestry
  rw [ground.answer, ancestors]
  rcases h.unit? index with ⟨outside, missing⟩ | ⟨part, u, hpart, hu, fits⟩
  · rw [outside, missing]
    rfl
  · rw [hpart, hu, Option.elim_some, Option.elim_some, fits.dependencies]

/-- The units are those of the parts, one by one. -/
theorem Fits.units : List.Forall₂ Part.Fits parts cx.units := by
  have slots := Holds.forall₂ h
  unfold Context.units
  generalize cx.sources = sources at slots
  clear h
  induction slots with
  | nil => exact List.Forall₂.nil
  | cons here _ ih =>
    obtain ⟨-, -, rfl, u, rfl, fits⟩ := here
    exact List.Forall₂.cons fits ih

/-- The order of the units is told by the parts. -/
theorem dependencyOrder_parts (ground : cx.Grounded parts) :
    ∃ cx', cx.Asks cx' ∧
      if (Part.graph parts).cycles = [] then cx.dependencyOrder = (some (Part.graph parts).order, cx')
      else cx.dependencyOrder.1 = none := by
  obtain ⟨cx', asks, order⟩ := cx.dependencyOrder_eq
  rw [h.unitIndices, h.ancestry ground] at order
  refine ⟨cx', asks, ?_⟩
  split
  next acyclic => exact order.trans (if_pos acyclic)
  next cyclic => rw [order.trans (if_neg cyclic)]

end

end Context

end AbcBuild
