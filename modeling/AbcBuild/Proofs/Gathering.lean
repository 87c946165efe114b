/-
Module: AbcBuild.Proofs.Gathering
Purpose: While the names of a block are bound, its unit gathers those that are not.  When all are bound, it
  has gathered only names that the block cites, and all of those that no part knows.
Main exports: Program.Cites, Program.Gathers, Scheduler.GathersAt.through, Scheduler.prepared_gathers
-/
import AbcBuild.Proofs.InheritedClasses

namespace AbcBuild

variable {config : Config}

/-! ### Names that are gathered -/

/-- The name is that of the supertype or of an interface. -/
def ClassDef.HasBase (c : ClassDef) (n : Name) : Prop := c.superName = some n ∨ n ∈ c.interfaces

/-- The name is the type of a variable or constant. -/
def ClassDef.HasSlotOf (c : ClassDef) (n : Name) : Prop :=
  ∃ t ∈ c.traits, ∃ value isConst, t.body = .slot (some n) value isConst

theorem Name.boundIn_eq_none_iff {known : QName → Bool} {n : Name} :
    n.boundIn known = none ↔ ∀ q ∈ n.candidates, known q = false ∧ q.isBuiltin = false := by
  rw [boundIn, Option.or_eq_none_iff, builtin?, List.find?_eq_none, List.find?_eq_none]
  simp only [Bool.not_eq_true]
  exact ⟨fun h q member => ⟨h.1 q member, h.2 q member⟩, fun h =>
    ⟨fun q m => (h q m).1, fun q m => (h q m).2⟩⟩

namespace Program

variable {p : Program} {f : Frame} {n : Name}

/-- A class refers to the name by its inheritance. -/
def HasBase (p : Program) (n : Name) : Prop := ∃ c ∈ p.classes, c.HasBase n

/-- A class refers to the name by its inheritance or by one of its data slots. -/
def Cites (p : Program) (n : Name) : Prop := ∃ c ∈ p.classes, c.HasBase n ∨ c.HasSlotOf n

theorem lastOf?_of_distinct (distinct : p.classNames.Nodup) {c : ClassDef} (listed : c ∈ p.classes) :
    ∃ index, p.lastOf? c.name = some (index, c) := by
  rw [← snd_indexed p.classes] at listed
  obtain ⟨⟨index, c⟩, placed, rfl⟩ := List.mem_map.1 listed
  exact ⟨index, lastOf?_of_mem distinct placed⟩

/-- The slot of a class has the names that the class has. -/
theorem lookup?_of_own (own : f.own = p.frame.own) (distinct : p.classNames.Nodup) {c : ClassDef}
    (listed : c ∈ p.classes) : ∃ index, f.lookup? c.name = some (classSlot index c) := by
  obtain ⟨index, last⟩ := lastOf?_of_distinct distinct listed
  exact ⟨index, by rw [Frame.lookup?, own, get?_own_frame, last]; rfl⟩

/-- Binding the inheritance leaves the names that the frame does not know. -/
theorem mem_resolveInheritance (own : f.own = p.frame.own) (distinct : p.classNames.Nodup) :
    n ∈ (f.resolveInheritance p.classNames).2 ↔ p.HasBase n ∧ n.boundIn f.contains = none := by
  have bound {c : ClassDef} (listed : c ∈ p.classes) :
      ∃ b, f.bindClass c.name = some b ∧ (n ∈ b.unresolved ↔ c.HasBase n ∧ n.boundIn f.contains = none) := by
    obtain ⟨index, found⟩ := lookup?_of_own own distinct listed
    refine ⟨_, by rw [Frame.bindClass, found, Option.map_some], ?_⟩
    rw [List.mem_filter, Option.isNone_iff_eq_none, List.mem_append, Option.mem_toList]
    rfl
  simp only [Frame.resolveInheritance, List.mem_flatMap, List.mem_filterMap]
  constructor
  · rintro ⟨b, ⟨name, listed, here⟩, missing⟩
    obtain ⟨c, member, rfl⟩ := List.mem_map.1 listed
    obtain ⟨b', there, left⟩ := bound member
    cases there.symm.trans here
    obtain ⟨base, unknown⟩ := left.1 missing
    exact ⟨⟨c, member, base⟩, unknown⟩
  · rintro ⟨⟨c, member, base⟩, unknown⟩
    obtain ⟨b, here, left⟩ := bound member
    exact ⟨b, ⟨c.name, List.mem_map_of_mem member, here⟩, left.2 ⟨base, unknown⟩⟩

/-- Binding the types of data slots leaves the names that the frame does not know. -/
theorem Mirrors.mem_resolveTypes {P : Nat → ClassDef → ClassSlot → Prop} (h : p.Mirrors P f)
    (distinct : p.classNames.Nodup) :
    n ∈ f.resolveTypes.2.2 ↔ (∃ c ∈ p.classes, c.HasSlotOf n) ∧ n.boundIn f.contains = none := by
  constructor
  · intro left
    obtain ⟨index, c, ref, d, value, isConst, last, member, body, unknown⟩ := h.of_mem_unresolved left
    have trait : d ∈ c.traits := by
      rw [← snd_members index c]
      exact List.mem_map_of_mem (f := Prod.snd) member
    exact ⟨⟨c, mem_of_mem_indexed (mem_of_lastOf? last).1, d, trait, value, isConst, body⟩, unknown⟩
  · rintro ⟨⟨c, listed, d, trait, value, isConst, body⟩, unknown⟩
    obtain ⟨index, last⟩ := lastOf?_of_distinct distinct listed
    obtain ⟨slot, own, -, slotOf, -⟩ := h.slot last
    rw [← snd_members index c] at trait
    obtain ⟨⟨ref, d'⟩, member, rfl⟩ := List.mem_map.1 trait
    obtain ⟨m, held, -, data, type⟩ := slotOf.slot member body
    have stored : slot ∈ f.classes := List.mem_map_of_mem (f := Prod.snd) (Table.mem_of_lookup own)
    exact Frame.mem_unresolved.2 ⟨slot, stored, m, held, data, type, unknown⟩

/-- Only names that the program cites are gathered, and of those that are due all that are not known. -/
structure Gathers (p : Program) (known : QName → Bool) (due : Name → Prop) (names : List Name) : Prop where
  cited : ∀ n ∈ names, p.Cites n
  complete : ∀ n, due n → n.boundIn known = none → n ∈ names

end Program

namespace AbcFrontend

variable {u : BuildUnit} {f : Frame}

theorem bindInheritance_gathers {names : List QName} (hf : u.typeInfo = some f)
    (flow : u.scratch.flow = some names) :
    (bindInheritance u).typeInfo = some (f.resolveInheritance names).1 ∧
      (bindInheritance u).scratch.unresolved = u.scratch.unresolved ++ (f.resolveInheritance names).2 := by
  simp only [bindInheritance, hf, flow, and_self]

/-- Binding the inheritance adds the names that are not bound to those that are gathered. -/
theorem inheritance_gathers {names : List QName} (framed : u.program?.map Program.state = some .framed)
    (hf : u.typeInfo = some f) (flow : u.scratch.flow = some names) (cx : Context) :
    ∃ f' : Frame, f'.own = f.own ∧ (inheritance [] u cx).1.typeInfo = some (f'.resolveInheritance names).1 ∧
      (inheritance [] u cx).1.scratch.unresolved
        = u.scratch.unresolved ++ (f'.resolveInheritance names).2 := by
  obtain ⟨f₁, taken, f₂, done, takes, own, -, heq⟩ := inheritance_merges framed hf cx
  rw [heq]
  exact ⟨f₂, own.trans takes.own, bindInheritance_gathers rfl flow⟩

/-- Binding the types of data slots adds the names that are not bound to those that are gathered. -/
theorem types_gathers (analyzed : u.program?.isNone = false) (hf : u.typeInfo = some f) (cx : Context) :
    ∃ f' : Frame, f'.own = f.own ∧ (types [] u cx).1.typeInfo = some f'.resolveTypes.1 ∧
      (types [] u cx).1.scratch.unresolved = u.scratch.unresolved ++ f'.resolveTypes.2.2 := by
  obtain ⟨f₁, done₁, unit₁, takes₁, -⟩ := mergeDependencies_takes .types u cx hf
  obtain ⟨f₂, done₂, unit₂, takes₂, -⟩ := mergeDependencies_takes .spaces (u.withFrame (some f₁) done₁)
    (mergeDependencies .types u cx).2.1 rfl
  refine ⟨f₂, takes₂.own.trans takes₁.own, ?_⟩
  simp only [types, analyzed, Bool.false_eq_true, if_false, unit₁, unit₂, Part.finish_nil, ite_self]
  exact ⟨rfl, rfl⟩

end AbcFrontend

namespace Part

variable {b : Basis config} {parts : List (Part config)} {part : Part config} {p : Program} {u : BuildUnit}
  {cx : Context}

/-- What the unit of a block has gathered after a phase. -/
def Gathered (parts : List (Part config)) (p : Program) : Phase → BuildUnit → Prop
  | .parse1 | .parse2 => fun u => u.scratch.unresolved = []
  | .analyze1 => fun u => u.scratch.unresolved = [] ∧ ∃ f, u.typeInfo = some f ∧ f.own = p.frame.own
  | .analyze2 => fun u => p.Gathers (known parts) p.HasBase u.scratch.unresolved
  | .analyze3 => fun u => p.Gathers (known parts) p.Cites u.scratch.unresolved
  | _ => fun _ => True

/-- What no part knows, the unit of a part does not know either. -/
theorem Knows.unbound {known : QName → Bool} (h : part.Knows b.ever known) (on : b.Alone) {n : Name}
    (unknown : n.boundIn (Part.known b.parts) = none) : n.boundIn known = none := by
  rw [Name.boundIn_eq_none_iff] at unknown ⊢
  intro q member
  obtain ⟨nowhere, plain⟩ := unknown q member
  refine ⟨Bool.eq_false_iff.2 fun here => ?_, plain⟩
  rw [on.known q (h.within q here)] at nowhere
  cases nowhere

theorem Parsed.gathers (h : part.Parsed u) (htree : part.tree = .abc p) (ok : cx.hasErrors = false)
    (gathered : Gathered parts p .parse2 u) :
    Gathered parts p .analyze1 (part.tree.frontend.step .analyze1 u cx).1 := by
  have program : u.program? = some p := by rw [BuildUnit.program?, h.tree, htree]
  have step : (part.tree.frontend.step .analyze1 u cx).1 = { u with
      tree := some (.abc { p with state := .framed })
      typeInfo := some p.frame
      scratch := { u.scratch with flow := some p.classNames } } := by
    rw [htree]
    simp [ParseTree.frontend, Frontend.step, AbcFrontend.step, ok, h.new.1, AbcFrontend.frame, program,
      fresh_of_abc htree]
  rw [step]
  exact ⟨gathered, p.frame, rfl, rfl⟩

theorem Opened.gathers (h : part.Opened b u) (on : b.Alone) (htree : part.tree = .abc p)
    (distinct : p.classNames.Nodup) (ok : cx.hasErrors = false) (gathered : Gathered b.parts p .analyze1 u)
    {known : QName → Bool} (bound : part.Bound b known (part.tree.frontend.step .analyze2 u cx).1) :
    Gathered b.parts p .analyze2 (part.tree.frontend.step .analyze2 u cx).1 := by
  obtain ⟨_, -, framed⟩ := h
  obtain ⟨none, f, hf, own⟩ := gathered
  obtain ⟨step, -, state⟩ := framed.step_eq htree ok
  obtain ⟨g, same, info, left⟩ := AbcFrontend.inheritance_gathers state hf (framed.flow p htree) cx
  rw [step] at bound ⊢
  -- the frame that the names were bound in knows what the unit knows now
  obtain ⟨g', hg', -, contains, -⟩ := bound.framed.frame
  cases info.symm.trans hg'
  rw [g.contains_resolveInheritance] at contains
  have mem (n : Name) := Program.mem_resolveInheritance (n := n) (same.trans own) distinct
  rw [none, List.nil_append] at left
  refine ⟨fun n listed => ?_, fun n base unknown => ?_⟩
  · rw [left, mem] at listed
    obtain ⟨c, member, base⟩ := listed.1
    exact ⟨c, member, Or.inl base⟩
  · rw [left, mem, contains]
    exact ⟨base, bound.knows.unbound on unknown⟩

theorem Bound.gathers {early : QName → Bool} (h : part.Bound b early u) (on : b.Alone)
    (htree : part.tree = .abc p) (distinct : p.classNames.Nodup) (ok : cx.hasErrors = false)
    (gathered : Gathered b.parts p .analyze2 u) {s : Scope}
    (typed : part.Typed b s (part.tree.frontend.step .analyze3 u cx).1) :
    Gathered b.parts p .analyze3 (part.tree.frontend.step .analyze3 u cx).1 := by
  have analyzed : u.program?.isNone = false := by rw [h.framed.program htree]; rfl
  have step := (h.framed.step_eq htree ok).2.1
  obtain ⟨f, hf, -, -, mirrors⟩ := h.framed.frame
  obtain ⟨g, same, info, left⟩ := AbcFrontend.types_gathers analyzed hf cx
  rw [step] at typed ⊢
  obtain ⟨g', hg', -, contains, -⟩ := typed.framed.frame
  cases info.symm.trans hg'
  rw [g.contains_resolveTypes] at contains
  have mem (n : Name) := ((mirrors p htree).of_own same).mem_resolveTypes (n := n) distinct
  refine ⟨fun n listed => ?_, fun n cited unknown => ?_⟩
  · rw [left, List.mem_append, mem] at listed
    rcases listed with before | ⟨⟨c, member, slot⟩, -⟩
    · exact gathered.cited n before
    · exact ⟨c, member, Or.inr slot⟩
  · rw [left, List.mem_append, mem, contains]
    obtain ⟨c, member, base | slot⟩ := cited
    · exact Or.inl (gathered.complete n ⟨c, member, base⟩ unknown)
    · exact Or.inr ⟨⟨c, member, slot⟩, typed.sees.late.unbound on unknown⟩

/-- What is gathered before a phase leads to what is gathered after it. -/
theorem gathered_step {before phase : Phase} (hnext : before.next? = some phase) (on : b.Alone)
    (htree : part.tree = .abc p) (distinct : p.classNames.Nodup) (ok : cx.hasErrors = false)
    {store store' : ClassStore}
    (h : part.At b store before u) (gathered : Gathered b.parts p before u)
    (h' : part.At b store' phase (part.tree.frontend.step phase u cx).1) :
    Gathered b.parts p phase (part.tree.frontend.step phase u cx).1 := by
  cases before with
  | parse1 =>
    cases hnext
    rw [step_idle (Or.inl rfl) ok]
    exact gathered
  | parse2 =>
    cases hnext
    exact Parsed.gathers h htree ok gathered
  | analyze1 =>
    cases hnext
    obtain ⟨_, bound⟩ := h'
    exact Opened.gathers h on htree distinct ok gathered bound
  | analyze2 =>
    cases hnext
    obtain ⟨_, bound⟩ := h
    obtain ⟨_, typed⟩ := h'
    exact bound.gathers on htree distinct ok gathered typed
  | postprocess => cases hnext
  | _ =>
    cases hnext
    trivial

end Part

/-! ### Gathering in a build -/

namespace Scheduler

variable {b : Basis config} {parts : List (Part config)} {l : Ledger config} {cx start : Context}
  {order : List Nat}
  {index : Nat} {part : Part config} {p : Program}

/-- A unit that a phase works on comes between those before it and those after it, which leave it alone. -/
theorem stepAll_split {s : Scheduler} (plain : s.Plain) (distinct : order.Nodup) (listed : index ∈ order)
    (phase : Phase) (cx : Context) :
    ∃ done rest, done.Nodup ∧ rest.Nodup ∧ index ∉ done ∧ index ∉ rest ∧ (∀ i ∈ done, i ∉ rest) ∧
      s.stepAll order phase cx = s.stepAll rest phase (s.stepAt phase (s.stepAll done phase cx) index) ∧
      (s.stepAll done phase cx).unit? index = cx.unit? index ∧
      (s.stepAll order phase cx).unit? index = (s.stepAt phase (s.stepAll done phase cx) index).unit?
        index := by
  obtain ⟨done, rest, rfl⟩ := List.append_of_mem listed
  obtain ⟨first, second, apart⟩ := List.nodup_append.1 distinct
  obtain ⟨behind, third⟩ := List.nodup_cons.1 second
  have absent : index ∉ done := fun early => apart index early index (.head _) rfl
  have steps := stepAll_append (s := s) done (index :: rest) phase cx
  refine ⟨done, rest, first, third, absent, behind,
    fun i early later => apart i early i (.tail _ later) rfl, steps,
    foldl_stepAt_of_not_mem plain phase absent cx, ?_⟩
  rw [steps]
  exact foldl_stepAt_of_not_mem plain phase behind _

/-- The units have been through a phase, and the one at a place has gathered what it has to. -/
structure GathersAt (b : Basis config) (l : Ledger config) (p : Program) (index : Nat)
    (phase : Phase) (cx : Context) : Prop where
  running : cx.Running b l fun _ => phase
  gathered : ∀ u, cx.unit? index = some u → Part.Gathered b.parts p phase u

/-- A phase leads from what is gathered before it to what is gathered after it. -/
theorem GathersAt.stepAll {before phase : Phase} (h : GathersAt b l p index before cx)
    (distinct : order.Nodup) (complete : ∀ i < b.parts.length, i ∈ order) (hnext : before.next? = some phase)
    (quiet : phase ≠ .analyze4) (on : b.Alone) (hpart : b.parts[index]? = some part)
    (htree : part.tree = .abc p)
    (names : p.classNames.Nodup) : GathersAt b l p index phase (standard.stepAll order phase cx) := by
  have whole := running_stepAll distinct complete h.running hnext quiet fun _ => on.isOpen
  refine ⟨whole, fun u' there => ?_⟩
  have listed := complete index (List.getElem?_eq_some_iff.1 hpart).1
  obtain ⟨done, rest, distinct', -, absent, -, -, -, same, ended⟩ :=
    stepAll_split plain_standard distinct listed phase cx
  have running :=
    stepAll_quiet distinct' h.running hnext quiet (fun _ => on.isOpen) (fun _ => .inl rfl) fun _ _ => rfl
  have level (i : Nat) :
      (if i ∈ done then phase else before) = before ∨ (if i ∈ done then phase else before) = phase := by
    split
    · exact Or.inr rfl
    · exact Or.inl rfl
  have after := stepAt_quiet running hnext quiet (fun _ => on.isOpen) level (if_neg absent)
  obtain ⟨-, slot, u, rfl, worked, -⟩ := running.units.2 index part hpart
  rw [if_neg absent] at worked
  have here : cx.unit? index = some u := same.symm.trans (Context.unit?_eq slot)
  -- the unit is what its front end makes of it
  have unit := stepAt_own_unit? plain_standard (frontendAt?_eq slot) (Context.unit?_eq slot) phase
  obtain ⟨-, slot', v, rfl, reached, -⟩ := after.units.2 index part hpart
  rw [Function.update_self] at reached
  rw [Context.unit?_eq slot'] at unit
  rw [ended, Context.unit?_eq slot'] at there
  cases there
  cases unit
  have before' := worked.resolve_left fun kept => on.new kept.shared
  have after' := (reached.resolve_left fun kept => on.new kept.shared).noted
    (part.tree.frontend.step phase u ((standard.stepAll done phase cx).putUnit index none)).1.lastPhase
  have ok : ((standard.stepAll done phase cx).putUnit index none).hasErrors = false := running.follows.ok
  have next := Part.gathered_step hnext on htree names ok before' (h.gathered u here) after'
  cases phase <;> exact next

/-- When all names are bound, the unit of a block has gathered those that no part knows. -/
theorem GathersAt.through (h : GathersAt b l p index .parse1 cx) (distinct : order.Nodup)
    (complete : ∀ i < b.parts.length, i ∈ order) (on : b.Alone) (hpart : b.parts[index]? = some part)
    (htree : part.tree = .abc p) (names : p.classNames.Nodup) :
    GathersAt b l p index .analyze3
      (standard.through order [.parse2, .analyze1, .analyze2, .analyze3] cx) := by
  have parsed : GathersAt b l p index .parse2 _ :=
    h.stepAll distinct complete rfl (by decide) on hpart htree names
  have framed : GathersAt b l p index .analyze1 _ :=
    parsed.stepAll distinct complete rfl (by decide) on hpart htree names
  have bound : GathersAt b l p index .analyze2 _ :=
    framed.stepAll distinct complete rfl (by decide) on hpart htree names
  exact bound.stepAll distinct complete rfl (by decide) on hpart htree names

end Scheduler

/-! ### The first phase -/

/-- The first phase gathers nothing. -/
theorem Frontend.Parses.gathers {f : Frontend} {source : Source} {slot : Option BuildUnit} {cx : Context}
    {made : Bool × Option BuildUnit × Context} (h : f.Parses source slot cx made)
    (none : ∀ u ∈ slot, u.scratch.unresolved = []) : ∀ u ∈ made.2.1, u.scratch.unresolved = [] := by
  intro u there
  cases h with
  | @known u₀ bytes held =>
    cases there
    exact none u₀ held
  | new =>
    cases there
    cases slot with
    | none => rfl
    | some u₀ => exact none u₀ rfl
  | failed => exact none u there

namespace Scheduler

variable {s : Scheduler} {cx start : Context} {order : List Nat}

theorem parseAt_gathers (plain : s.Plain) (index : Nat)
    (none : ∀ j, ∀ u ∈ cx.unit? j, u.scratch.unresolved = []) (j : Nat) :
    ∀ u ∈ (s.parseAt cx index).unit? j, u.scratch.unresolved = [] := by
  intro u there
  rcases parseAt_unit? plain there with same | ⟨f, source, made, u', last, parses, found, rfl⟩
  · exact none j u same
  · exact parses.gathers (none j) u' found

theorem prepared_gathers (plain : s.Plain) (prepared : s.prepared? cx = some (order, start))
    (none : ∀ j, ∀ u ∈ cx.unit? j, u.scratch.unresolved = []) (j : Nat) :
    ∀ u ∈ start.unit? j, u.scratch.unresolved = [] := by
  obtain ⟨-, -, -, sorted⟩ := prepared?_iff_supports.1 prepared
  have parsed : ∀ j, ∀ u ∈ (s.parseAll cx).unit? j, u.scratch.unresolved = [] := by
    unfold parseAll
    generalize List.range cx.sources.length = items
    clear prepared sorted
    induction items generalizing cx with
    | nil => exact none
    | cons index rest ih => exact ih (parseAt_gathers plain index none)
  have same := ((defineUnits_evolves (s.parseAll cx)).trans (dependencyOrder_evolves _)).unit? j
  rw [sorted] at same
  rw [same]
  exact parsed j

end Scheduler

end AbcBuild
