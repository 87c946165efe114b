/-
Module: AbcBuild.Proofs.InheritedClasses
Purpose: A unit takes over the frames of the units that it names itself, when these have taken over theirs.
  So in the end it knows the classes of all units that it inherits from, however far.
Main exports: AbcFrontend.inheritance_takes, Part.HasClasses, Scheduler.stepAt_settles,
  Compilation.inherited_classes_complete
-/
import AbcBuild.Proofs.Success

namespace AbcBuild

open Relation (TransGen)

variable {config : Config}

/-! ### Taking over inherited classes -/

theorem Frame.within_resolveInheritance (f : Frame) (names : List QName) :
    f.Within (f.resolveInheritance names).1 where
  names := fun q known => by rwa [f.contains_resolveInheritance]
  classes := fun q known => by rwa [f.resolveInheritance_keeps names Frame.hasClass hasClass_modify]

namespace AbcFrontend

theorem bindInheritance_within {u : BuildUnit} {f : Frame} (hf : u.typeInfo = some f) :
    ∃ f', (bindInheritance u).typeInfo = some f' ∧ f.Within f' := by
  unfold bindInheritance
  split
  next names frame _ hframe =>
    cases hf.symm.trans hframe
    exact ⟨_, rfl, f.within_resolveInheritance names⟩
  next => exact ⟨f, hf, .refl f⟩

/-- The frames that the inheritance asks for are taken over, then those of the namespaces in use, and then
    the supertypes are bound. -/
theorem inheritance_merges {u : BuildUnit} {f : Frame} (framed : u.program?.map Program.state = some .framed)
    (hf : u.typeInfo = some f) (cx : Context) :
    ∃ f₁ taken f₂ done, f.Takes cx.frameOf? (cx.asks u) u.dependencies.inheritance [] f₁ taken ∧
      f₂.own = f₁.own ∧ f₁.Within f₂ ∧ (inheritance [] u cx).1
        = bindInheritance (u.withFrame (some f₂) done) := by
  obtain ⟨f₁, done₁, unit₁, takes₁, -⟩ := mergeDependencies_takes .inheritance
    { u with scratch := { u.scratch with processed := some [] } } cx hf
  obtain ⟨f₂, done₂, unit₂, takes₂, -⟩ := mergeDependencies_takes .spaces (u.withFrame (some f₁) done₁)
    (mergeDependencies .inheritance { u with scratch := { u.scratch with processed := some [] } } cx).2.1 rfl
  refine ⟨f₁, _, f₂, done₂, takes₁, takes₂.own, takes₂.grows, ?_⟩
  rw [inheritance, if_pos framed]
  simp only [unit₁, Part.finish_nil, ite_self]
  exact congrArg bindInheritance unit₂

/-- In the end the unit knows what the sources know that its inheritance asks for. -/
theorem inheritance_takes {u : BuildUnit} {f : Frame} (framed : u.program?.map Program.state = some .framed)
    (hf : u.typeInfo = some f) (cx : Context) :
    ∃ f', (inheritance [] u cx).1.typeInfo = some f' ∧ f.Within f' ∧
      ∀ n ∈ u.dependencies.inheritance, ∀ source ∈ cx.asks u n, ∀ g, cx.frameOf? source = some g → g.Named →
        g.Within f' := by
  obtain ⟨f₁, taken, f₂, done, takes, -, grows, heq⟩ := inheritance_merges framed hf cx
  obtain ⟨f', hf', bound⟩ := bindInheritance_within (u := u.withFrame (some f₂) done) rfl
  have later : f₁.Within f' := grows.trans bound
  rw [heq]
  refine ⟨f', hf', takes.grows.trans later, fun n listed source asked g found named => ?_⟩
  rcases takes.asked n listed source asked with taken | none
  · rcases takes.taken source taken with before | ⟨g', found', within⟩
    · cases before
    · cases found.symm.trans found'
      exact (within named).trans later
  · cases found.symm.trans none

end AbcFrontend

/-! ### Parts -/

namespace Part

variable {b : Basis config} {parts : List (Part config)} {part : Part config} {u : BuildUnit}

/-- The frame knows the classes that the block of a part defines. -/
def HasClasses (part : Part config) (f : Frame) : Prop :=
  ∀ p, part.tree = .abc p → ∀ c ∈ p.classes, f.hasClass c.name = true

theorem HasClasses.within {f g : Frame} (h : part.HasClasses f) (within : f.Within g) : part.HasClasses g :=
  fun p htree c listed => within.classes c.name (h p htree c listed)

theorem hasClasses_of_mirrors {f : Frame} {P : Nat → ClassDef → ClassSlot → Prop}
    (mirrors : ∀ p, part.tree = .abc p → p.Mirrors P f) : part.HasClasses f := by
  intro p htree c listed
  obtain ⟨placed, last⟩ := Option.isSome_iff_exists.1 (p.isSome_lastOf? listed)
  obtain ⟨slot, own⟩ := (mirrors p htree).complete c.name placed last
  rw [Frame.hasClass_iff]
  exact Or.inl ((Table.isSome_get? _ _).1 (by rw [own]; rfl))

/-- The frame of a unit that is analyzed knows the classes of its block. -/
theorem At.classes {store : ClassStore} {phase : Phase} (h : part.At b store phase u)
    (level : phase = .analyze1 ∨ phase = .analyze2) :
    ∃ f, u.typeInfo = some f ∧ f.Named ∧ part.HasClasses f := by
  rcases level with rfl | rfl
  · obtain ⟨_, -, framed⟩ := h
    obtain ⟨f, hf, bears, -, mirrors⟩ := framed.frame
    exact ⟨f, hf, bears.named, hasClasses_of_mirrors mirrors⟩
  · obtain ⟨_, bound⟩ := h
    obtain ⟨f, hf, bears, -, mirrors⟩ := bound.framed.frame
    exact ⟨f, hf, bears.named, hasClasses_of_mirrors mirrors⟩

/-- There are parts at both ends of a path of inheritance. -/
theorem ends_of_path (distinct : (parts.map fun part => part.source.name).Nodup) (clear : Clear parts)
    {i j : Nat} (path : TransGen (Function.swap (graph parts).Edge) i j) :
    ∃ child ancestor, parts[i]? = some child ∧ parts[j]? = some ancestor := by
  obtain ⟨_, first, -⟩ := Relation.TransGen.head'_iff.1 path
  obtain ⟨_, -, last⟩ := Relation.TransGen.tail'_iff.1 path
  obtain ⟨-, child, -, hchild, -⟩ := (edge_graph_iff distinct clear).1 first
  obtain ⟨ancestor, -, hancestor, -⟩ := (edge_graph_iff distinct clear).1 last
  exact ⟨child, ancestor, hchild, hancestor⟩

end Part

/-! ### The phase of inheritance -/

namespace Context

variable {b : Basis config} {parts : List (Part config)} {l : Ledger config} {stage : Nat → Phase}
  {cx : Context}

/-- The unit at a place knows the classes of all parts that it inherits from. -/
def Settled (cx : Context) (parts : List (Part config)) (index : Nat) : Prop :=
  ∀ j other, TransGen (Function.swap (Part.graph parts).Edge) index j → parts[j]? = some other →
    ∀ u f, cx.unit? index = some u → u.typeInfo = some f → other.HasClasses f

theorem Settled.of_unit? {cx' : Context} {index : Nat} (h : cx.Settled parts index)
    (same : cx'.unit? index = cx.unit? index) : cx'.Settled parts index :=
  fun j other path hother u f hu => h j other path hother u f (same ▸ hu)

theorem inheritsFrom_iff (distinct : (cx.sources.map fun slot => slot.source.name).Nodup)
    {child ancestor : Nat} :
    cx.InheritsFrom child ancestor ↔ child ∈ cx.unitIndices ∧ ancestor ∈ cx.ancestry child ∧
      ancestor ≠ child := by
  rw [← edge_graphOf, edge_eq distinct]

/-- Inheritance between units is inheritance between their parts. -/
theorem Fits.inheritsFrom (h : cx.Fits parts) (ground : cx.Grounded parts) :
    cx.InheritsFrom = Function.swap (Part.graph parts).Edge := by
  have names : cx.sources.map (fun slot => slot.source.name) = parts.map fun part => part.source.name := by
    have sources := congrArg (List.map Source.name) (Holds.sources h)
    rwa [List.map_map, List.map_map] at sources
  have distinct : (cx.sources.map fun slot => slot.source.name).Nodup := names ▸ ground.distinct
  rw [Part.graph, ← h.unitIndices, ← h.ancestry ground, edge_eq distinct]

theorem Holds.at_unit {P : Nat → Part config → Option BuildUnit → Prop} (h : cx.Holds parts P) :
    cx.Holds parts fun index part unit => cx.unit? index = unit ∧ P index part unit := by
  refine ⟨h.1, fun index part hpart => ?_⟩
  obtain ⟨unit, slot, holds⟩ := h.2 index part hpart
  exact ⟨unit, slot, unit?_eq slot, holds⟩

/-- While a unit is worked on, the frame of any other is there to be taken over. -/
theorem Running.frameOf? (h : cx.Running b l stage) (on : b.Alone)
    (level : ∀ i, stage i = .analyze1 ∨ stage i = .analyze2) {index k : Nat} (apart : k ≠ index)
    {part other : Part config} (hpart : b.parts[index]? = some part) (hother : b.parts[k]? = some other) :
    ∃ u g, cx.unit? k = some u ∧ u.typeInfo = some g ∧ g.Named ∧ other.HasClasses g ∧
      (cx.putUnit index none).frameOf? other.source.name = some g := by
  have slots : (cx.putUnit index none).Holds b.parts fun i other unit => i ≠ index → cx.unit? i = unit ∧
      other.Reached b cx.store (stage i) unit :=
    h.units.at_unit.modify hpart rfl (fun away => (away rfl).elim) fun _ _ _ _ holds _ => holds
  obtain ⟨_, found, elsewhere⟩ := slots.unitNamed?_eq h.ground.distinct hother
  obtain ⟨here, u, rfl, kept | reached, -⟩ := elsewhere apart
  · exact (on.new kept.shared).elim
  · obtain ⟨g, hg, named, classes⟩ := reached.classes (level k)
    exact ⟨u, g, here, hg, named, classes, by rw [Context.frameOf?, found, Option.bind_some, hg]⟩

theorem Running.unit (h : cx.Running b l fun _ => .analyze2) (on : b.Alone) {index : Nat}
    {part : Part config} (hpart : b.parts[index]? = some part) :
    ∃ u f, cx.unit? index = some u ∧ u.typeInfo = some f ∧
      ∀ p, part.tree = .abc p → u.program? = some { p with state := .framed } := by
  obtain ⟨_, slot, u, rfl, after, -⟩ := h.units.2 index part hpart
  obtain ⟨known, bound⟩ := after.resolve_left fun kept => on.new kept.shared
  obtain ⟨f, hf, -⟩ := bound.framed.frame
  exact ⟨u, f, unit?_eq slot, hf, fun p htree => bound.framed.program htree⟩

end Context

namespace Scheduler

variable {b : Basis config} {parts : List (Part config)} {l : Ledger config} {stage : Nat → Phase}
  {cx : Context}

/-- A unit settles if those that it inherits from have. -/
theorem stepAt_settles (h : cx.Running b l stage) (on : b.Alone)
    (blocks : ∀ part ∈ b.parts, ∃ p, part.tree = .abc p) (level : ∀ i, stage i = .analyze1 ∨
      stage i = .analyze2)
    {index : Nat} (waiting : stage index = .analyze1)
    (ready : ∀ k, (Part.graph b.parts).Edge k index → cx.Settled b.parts k) :
    (standard.stepAt .analyze2 cx index).Settled b.parts index := by
  intro j last path hlast u' f' hu' hf'
  cases hpart : b.parts[index]? with
  | none =>
    obtain ⟨k, edge, -⟩ := Relation.TransGen.head'_iff.1 path
    obtain ⟨-, child, -, held, -⟩ := (Part.edge_graph_iff h.ground.distinct h.ground.clear).1 edge
    cases hpart.symm.trans held
  | some part =>
    obtain ⟨-, slot, u, rfl, after, -⟩ := h.units.2 index part hpart
    rw [waiting] at after
    obtain ⟨p, htree⟩ := blocks part (List.mem_of_getElem? hpart)
    obtain ⟨known, -, framed⟩ : part.Opened b u := after.resolve_left fun kept => on.new kept.shared
    obtain ⟨f, hf, -⟩ := framed.frame
    have ok : (cx.putUnit index none).hasErrors = false := h.follows.ok
    obtain ⟨step, -, state⟩ := framed.step_eq htree ok
    obtain ⟨f'', hf'', -, takes⟩ := AbcFrontend.inheritance_takes state hf (cx.putUnit index none)
    -- so this is the frame in question
    rw [stepAt_own_unit? plain_standard (frontendAt?_eq slot) (Context.unit?_eq slot), step] at hu'
    cases hu'
    cases hf''.symm.trans hf'
    -- the first edge of the path leads to a frame that has all that the rest of the path leads to
    obtain ⟨k, edge, rest⟩ := Relation.TransGen.head'_iff.1 path
    obtain ⟨ancestor, child, hancestor, hchild, -, among, apart, n, listed, q, found, defined⟩ :=
      (Part.edge_graph_iff h.ground.distinct h.ground.clear).1 edge
    cases hpart.symm.trans hchild
    have away : k ≠ index := by
      rintro rfl
      cases hancestor.symm.trans hchild
      exact apart rfl
    have ground : (cx.putUnit index none).Grounded b.parts := { h.ground with }
    have means := (Part.meaning_eq_some_iff (Part.defines_iff.2 ⟨ancestor, among, defined⟩)).2 found
    have asked := ground.asks framed.fits (List.mem_of_getElem? hpart) means among defined fun same =>
      apart (congrArg (fun part => part.source.name) same.symm)
    obtain ⟨v, g, hv, hg, named, own, offered⟩ := h.frameOf? on level away hpart hancestor
    have within := takes n (framed.fits.dependencies ▸ listed) _ asked g offered named
    rcases Relation.ReflTransGen.cases_head rest with rfl | ⟨m, edge', rest'⟩
    · cases hancestor.symm.trans hlast
      exact own.within within
    · have path' := Relation.TransGen.head'_iff.2 ⟨m, edge', rest'⟩
      exact (ready k edge j last path' hlast v g hv hg).within within

/-- Units settle one after the other, if each comes after those that it inherits from. -/
theorem stepAll_settles {order rest : List Nat} (done : List Nat) (split : order = done ++ rest)
    (distinct : order.Nodup) (sorted : ∀ i j, (Part.graph b.parts).Edge i j → order.idxOf i < order.idxOf j)
    (h : cx.Running b l stage) (on : b.Alone) (blocks : ∀ part ∈ b.parts, ∃ p, part.tree = .abc p)
    (level : ∀ i, stage i = .analyze1 ∨ stage i = .analyze2) (waiting : ∀ i ∈ rest, stage i = .analyze1)
    (settled : ∀ k ∈ done, cx.Settled b.parts k) :
    ∀ k ∈ order, (standard.stepAll rest .analyze2 cx).Settled b.parts k := by
  induction rest generalizing done cx stage with
  | nil =>
    rw [split, List.append_nil]
    exact settled
  | cons index later ih =>
    obtain ⟨-, distinct', apart⟩ := List.nodup_append.1 (split ▸ distinct)
    have absent : index ∉ done := fun early => apart index early index (.head _) rfl
    have waits := waiting index (.head _)
    have ready (k : Nat) (edge : (Part.graph b.parts).Edge k index) : k ∈ done := by
      have before := sorted k index edge
      by_contra behind
      rw [split, List.idxOf_append_of_notMem absent, List.idxOf_append_of_notMem behind,
        List.idxOf_cons_self] at before
      omega
    have running := stepAt_quiet h rfl (by decide) (fun other => by cases other) level waits
    have first := stepAt_settles h on blocks level waits fun k edge => settled k (ready k edge)
    refine ih (done ++ [index]) (by rw [split, List.append_assoc, List.singleton_append]) running
      (level_update level) (still_waiting distinct' waiting) fun k early => ?_
    rcases List.mem_append.1 early with old | new
    · have other : k ≠ index := fun same => absent (same ▸ old)
      exact (settled k old).of_unit? (stepAt_unit?_of_ne plain_standard other .analyze2 cx)
    · cases List.mem_singleton.1 new
      exact first

/-! ### Whole builds -/

variable {order : List Nat} {start : Context}

/-- After the phase of inheritance every unit has settled. -/
theorem through_settles (h : start.Running b l fun _ => .parse1) (on : b.Alone)
    (blocks : ∀ part ∈ b.parts, ∃ p, part.tree = .abc p) (acyclic : (Part.graph b.parts).cycles = []) :
    ((standard.through (Part.graph b.parts).order [.parse2, .analyze1, .analyze2] start).Running b l
        fun _ => .analyze2) ∧
      ∀ k < b.parts.length,
        (standard.through (Part.graph b.parts).order [.parse2, .analyze1, .analyze2] start).Settled
          b.parts k := by
  have distinct := (Part.graph b.parts).nodup_order
  have complete : ∀ i < b.parts.length, i ∈ (Part.graph b.parts).order := fun _ => Part.mem_order
  have inside := Part.closed_ancestry h.ground.distinct h.ground.clear
  have loopless := (Context.cycles_graphOf_eq_nil_iff inside List.nodup_range).1 acyclic
  have sorted (i j : Nat) (edge : (Part.graph b.parts).Edge i j) :
      (Part.graph b.parts).order.idxOf i < (Part.graph b.parts).order.idxOf j :=
    Graph.idxOf_lt_of_edge (Context.closed_graphOf inside) loopless edge
  have parsed := running_stepAll distinct complete h rfl (by decide) fun other => by cases other
  have framed := running_stepAll distinct complete parsed rfl (by decide) fun other => by cases other
  have bound := running_stepAll distinct complete framed rfl (by decide) fun other => by cases other
  refine ⟨bound, fun k inside => ?_⟩
  exact stepAll_settles [] rfl distinct sorted framed on blocks (fun _ => .inl rfl) (fun _ _ => rfl)
    (fun _ none => (List.not_mem_nil none).elim) k (complete k inside)

end Scheduler

namespace Compilation

/-- In a build of blocks that takes nothing over and gets past the first phase, the phase of inheritance
    reports no error, and after it the frame of every unit knows all classes of every unit that it inherits
    from, directly or through others. -/
theorem inherited_classes_complete (config : Config) (edits : List Edit)
    (fresh : (after config edits).cache.isEmpty = true)
    (blocks : ∀ s ∈ (after config edits).sources.values, s.mime = Mime.abc)
    (past : ((after config edits).scheduler.run (after config edits).context).1.lastPhase ∉
      [none, some .parse1]) :
    ∃ order start cx,
      (after config edits).scheduler.prepared? (after config edits).context = some (order, start) ∧
      (after config edits).scheduler.run (after config edits).context
        = (after config edits).scheduler.runOrdered order start ∧
      (after config edits).scheduler.runPhases order [.parse2, .analyze1, .analyze2] start = (none, cx) ∧
      ∀ i j, TransGen cx.InheritsFrom i j → ∃ u v f p, cx.unit? i = some u ∧ cx.unit? j = some v ∧
        u.typeInfo = some f ∧ v.program? = some p ∧ ∀ c ∈ p.classes, f.hasClass c.name = true := by
  have keyed := keyed_after config edits
  have opens := (keyed.sound fresh).opens
  have on := alone_basis config [] (reusable_eq_zero fresh)
  generalize (after config edits).basis config [] = b at opens on
  rw [keyed.scheduler] at past ⊢
  rcases Scheduler.standard.run_cases (after config edits).context with
    ⟨order, start, prepared, ran, -⟩ | ⟨phase, cx', halted, early, -⟩
  · have sources := Scheduler.parts_of_prepared opens prepared
    rw [← sources] at opens
    obtain ⟨rfl, acyclic, running⟩ := Scheduler.running_of_prepared opens prepared
    have trees : ∀ part ∈ b.parts, ∃ p, part.tree = .abc p := by
      intro part member
      have mime := blocks part.source (sources ▸ List.mem_map_of_mem member)
      cases htree : part.tree with
      | abc p => exact ⟨p, rfl⟩
      | properties file =>
        rw [(Part.of_properties htree).1] at mime
        exact absurd mime (by decide)
    obtain ⟨bound, settled⟩ := Scheduler.through_settles running on trees acyclic
    have clear := Scheduler.runPhases_clear Scheduler.plain_standard bound.follows.ok
    refine ⟨_, start, _, prepared, ran, clear, fun i j path => ?_⟩
    rw [bound.units.fits.inheritsFrom bound.ground] at path
    obtain ⟨child, other, hchild, hother⟩ := Part.ends_of_path bound.ground.distinct bound.ground.clear path
    obtain ⟨u, f, hu, hf, -⟩ := bound.unit on hchild
    obtain ⟨v, -, hv, -, program⟩ := bound.unit on hother
    obtain ⟨p, htree⟩ := trees other (List.mem_of_getElem? hother)
    have classes := settled i (List.getElem?_eq_some_iff.1 hchild).1 j other path hother u f hu hf p htree
    exact ⟨u, v, f, _, hu, hv, hf, program p htree, classes⟩
  · rw [halted] at past
    exact (past early).elim

/-- A class that inherits from another by way of a third. -/
def lineage : List Edit :=
  [.add (classSource "a.abc" ((Abc.ClassSpec.named "A").extending "B")),
   .add (classSource "b.abc" ((Abc.ClassSpec.named "B").extending "C")),
   .add (classSource "c.abc" (Abc.ClassSpec.named "C"))]

theorem inherited_classes_complete_lineage : (after {} lineage).cache.isEmpty = true ∧
    (∀ s ∈ (after {} lineage).sources.values, s.mime = Mime.abc) ∧
    ∃ (cx : Context) (u : BuildUnit) (f : Frame), TransGen cx.InheritsFrom 0 2 ∧ cx.unit? 0 = some u ∧
      u.typeInfo = some f ∧ f.hasClass (.unnamed "C") = true := by
  have blocks : ∀ s ∈ (after {} lineage).sources.values, s.mime = Mime.abc := by decide
  have past : ((after {} lineage).scheduler.run (after {} lineage).context).1.lastPhase ∉
      [none, some .parse1] := by
    decide +kernel
  obtain ⟨order, start, cx, prepared, -, phases, complete⟩ :=
    inherited_classes_complete {} lineage rfl blocks past
  have computed : (((after {} lineage).scheduler.prepared? (after {} lineage).context).map fun p =>
      ((after {} lineage).scheduler.runPhases p.1 [.parse2, .analyze1, .analyze2] p.2).2).any (fun cx =>
        cx.sources.map (fun slot => slot.source.name) = ["a.abc", "b.abc", "c.abc"] &&
          cx.unitIndices = [0, 1, 2] && cx.ancestry 0 = [1] && cx.ancestry 1 = [2] &&
          ((cx.unit? 2).bind BuildUnit.program?).map Program.classNames = some [.unnamed "C"]) = true := by
    decide +kernel
  rw [prepared, Option.map_some, phases, Option.any_some] at computed
  simp only [Bool.and_eq_true, decide_eq_true_eq] at computed
  obtain ⟨⟨⟨⟨names, units⟩, first⟩, second⟩, last⟩ := computed
  have distinct : (cx.sources.map fun slot => slot.source.name).Nodup := by
    rw [names]
    decide
  have path : TransGen cx.InheritsFrom 0 2 := by
    refine .head (b := 1) ?_ (.single ?_)
    · exact (Context.inheritsFrom_iff distinct).2 ⟨by simp [units], by simp [first], by decide⟩
    · exact (Context.inheritsFrom_iff distinct).2 ⟨by simp [units], by simp [second], by decide⟩
  obtain ⟨u, v, f, p, hu, hv, hf, program, classes⟩ := complete 0 2 path
  rw [hv, Option.bind_some, program, Option.map_some, Option.some.injEq] at last
  have listed : QName.unnamed "C" ∈ p.classNames := by simp [last]
  obtain ⟨c, member, named⟩ := List.mem_map.1 listed
  exact ⟨rfl, blocks, cx, u, f, path, hu, hf, named ▸ classes c member⟩

end Compilation

end AbcBuild
