/-
Module: AbcBuild.Proofs.Steps
Purpose: What the steps of a build leave alone, whatever the units are like.  A step works on one unit, of
  which it keeps what other units may rely on.  All that is shared only grows, and only the phase that
  publishes adds anything but warnings.
Main exports: BuildUnit.Stays, BuildUnit.Rests, Frontend.step_rests, Frontend.step_stays
-/
import AbcBuild.Proofs.Parsing
import AbcBuild.Proofs.Publishing

namespace AbcBuild

/-! ### What stays of a unit -/

namespace BuildUnit

/-- What every phase after the first leaves alone in a unit.  Only a bundle that is not taken over gets other
    bytes. -/
structure Stays (format : InputFormat) (u u' : BuildUnit) : Prop where
  source : u'.source = u.source
  topLevel : u'.topLevel = u.topLevel
  dependencies : u'.dependencies = u.dependencies
  styles : u'.styles = u.styles
  kept : u'.hasTypeInfo = u.hasTypeInfo
  done : u'.done = u.done
  tree : u'.tree.map ParseTree.format = u.tree.map ParseTree.format
  bytes : format = .abc ∨ u.hasTypeInfo = true → u'.bytes = u.bytes

/-- What the phases that do not publish leave alone. -/
structure Rests (format : InputFormat) (u u' : BuildUnit) : Prop extends u.Stays format u' where
  classTable : u'.classTable = u.classTable

variable {format : InputFormat} {u u' u'' : BuildUnit}

theorem Stays.refl (format : InputFormat) (u : BuildUnit) : u.Stays format u :=
  ⟨rfl, rfl, rfl, rfl, rfl, rfl, rfl, fun _ => rfl⟩

theorem Rests.refl (format : InputFormat) (u : BuildUnit) : u.Rests format u := ⟨.refl format u, rfl⟩

/-- What stays in each of two steps stays in both together. -/
theorem Stays.trans (h : u.Stays format u') (h' : u'.Stays format u'') : u.Stays format u'' where
  source := h'.source.trans h.source
  topLevel := h'.topLevel.trans h.topLevel
  dependencies := h'.dependencies.trans h.dependencies
  styles := h'.styles.trans h.styles
  kept := h'.kept.trans h.kept
  done := h'.done.trans h.done
  tree := h'.tree.trans h.tree
  bytes := fun own => (h'.bytes (own.imp_right h.kept.trans)).trans (h.bytes own)

theorem Rests.trans (h : u.Rests format u') (h' : u'.Rests format u'') : u.Rests format u'' :=
  ⟨h.toStays.trans h'.toStays, h'.classTable.trans h.classTable⟩

theorem tree_of_program {program : Program} (h : u.program? = some program) :
    u.tree = some (.abc program) := by
  unfold program? at h
  split at h
  next held =>
    cases h
    exact held
  next => cases h

theorem exists_program (u : BuildUnit) (format : u.tree.map ParseTree.format = some .abc) :
    ∃ program, u.program? = some program := by
  obtain ⟨tree, held, same⟩ := Option.map_eq_some_iff.1 format
  cases tree with
  | abc program => exact ⟨program, by rw [program?, held]⟩
  | properties file => cases same

theorem exists_properties (u : BuildUnit) (format : u.tree.map ParseTree.format = some .properties) :
    ∃ file, u.properties? = some file := by
  obtain ⟨tree, held, same⟩ := Option.map_eq_some_iff.1 format
  cases tree with
  | abc program => cases same
  | properties file => exact ⟨file, by rw [properties?, held]⟩

end BuildUnit

/-! ### Phases that do not publish -/

/-- Taking over frames changes only the frame of a unit and its record of what was merged. -/
theorem mergeDependencies_rests (format : InputFormat) (set : DependencySet) (u : BuildUnit) (cx : Context) :
    u.Rests format (mergeDependencies set u cx).1 ∧ cx.Asks (mergeDependencies set u cx).2.1 := by
  have h := accounts_mergeNamesBy takeOver (u.dependencies.ofSet set) u cx
  obtain ⟨typeInfo, done, same⟩ := h.unit
  refine ⟨?_, h.asks⟩
  rw [mergeDependencies, mergeBy, same]
  exact { BuildUnit.Rests.refl format u with }

namespace AbcFrontend

variable (u : BuildUnit) (cx : Context)

/-- Binding supertypes changes only the frame of a unit. -/
theorem bindInheritance_rests : u.Rests .abc (bindInheritance u) := by
  unfold bindInheritance
  split
  · exact { BuildUnit.Rests.refl .abc u with }
  · exact .refl _ u

/-- So does binding the types of members. -/
theorem bindTypes_rests : u.Rests .abc (bindTypes u) := by
  unfold bindTypes
  split
  · exact .refl _ u
  · exact { BuildUnit.Rests.refl .abc u with }

theorem frame_rests : u.Rests .abc (frame [] u cx).1 ∧ (frame [] u cx).2 = cx := by
  unfold frame
  split
  next => exact ⟨.refl _ u, rfl⟩
  next program held =>
    split
    next =>
      have format : u.tree.map ParseTree.format = some .abc := by rw [BuildUnit.tree_of_program held]; rfl
      rw [Part.finish_nil]
      exact ⟨{ BuildUnit.Rests.refl .abc u with tree := format.symm }, rfl⟩
    next => exact ⟨.refl _ u, rfl⟩

/-- Two sets of dependencies are taken over one after the other. -/
theorem merges_rest (first second : DependencySet) (u : BuildUnit) (cx : Context) :
    u.Rests .abc (mergeDependencies second (mergeDependencies first u cx).1
      (mergeDependencies first u cx).2.1).1 ∧
      cx.Asks (mergeDependencies second (mergeDependencies first u cx).1
        (mergeDependencies first u cx).2.1).2.1 := by
  obtain ⟨rests, asks⟩ := mergeDependencies_rests .abc first u cx
  obtain ⟨rests', asks'⟩ := mergeDependencies_rests .abc second (mergeDependencies first u cx).1
    (mergeDependencies first u cx).2.1
  exact ⟨rests.trans rests', asks.trans asks'⟩

theorem inheritance_rests : u.Rests .abc (inheritance [] u cx).1 ∧ cx.Asks (inheritance [] u cx).2 := by
  unfold inheritance
  split
  next =>
    have start : u.Rests .abc { u with scratch := { u.scratch with processed := some [] } } :=
      { BuildUnit.Rests.refl .abc u with }
    obtain ⟨rests, asks⟩ :=
      merges_rest .inheritance .spaces { u with scratch := { u.scratch with processed := some [] } } cx
    simp only [Part.finish_nil, ite_self]
    exact ⟨(start.trans rests).trans (bindInheritance_rests _), asks⟩
  next => exact ⟨.refl _ u, .refl cx⟩

theorem types_rests : u.Rests .abc (types [] u cx).1 ∧ cx.Asks (types [] u cx).2 := by
  unfold types
  split
  next => exact ⟨.refl _ u, .refl cx⟩
  next =>
    obtain ⟨rests, asks⟩ := merges_rest .types .spaces u cx
    simp only [Part.finish_nil, ite_self]
    exact ⟨rests.trans (bindTypes_rests _), asks⟩

theorem generate_rests : u.Rests .abc (generate [] u cx).1 ∧ (generate [] u cx).2 = cx := by
  have same : u.Rests .abc
      (({ u with scratch := {}, typeInfo := u.typeInfo.map Frame.clean } : BuildUnit).setBytecode u.bytes) :=
    { BuildUnit.Rests.refl .abc u with }
  unfold generate Extension.runAll
  cases cx.hasErrors with
  | true => exact ⟨.refl _ u, rfl⟩
  | false => exact ⟨same, rfl⟩

end AbcFrontend

namespace BundleFrontend

theorem frame_rests (u : BuildUnit) (cx : Context) :
    u.Rests .properties (frame [] u cx).1 ∧ (frame [] u cx).2 = cx := by
  unfold frame
  split
  next => exact ⟨.refl _ u, rfl⟩
  next =>
    rw [Part.finish_nil]
    exact ⟨{ BuildUnit.Rests.refl .properties u with }, rfl⟩

/-- Only a bundle that is not taken over is generated. -/
theorem generate_rests {u : BuildUnit} (plain : u.hasTypeInfo = false) (cx : Context) :
    u.Rests .properties (generate [] u cx).1 ∧ (generate [] u cx).2 = cx := by
  unfold generate Extension.runAll
  cases cx.hasErrors with
  | true => exact ⟨.refl _ u, rfl⟩
  | false =>
    simp only [Bool.false_eq_true, if_false, Extension.runEach, if_true]
    split
    next => exact ⟨.refl _ u, rfl⟩
    next file _ =>
      refine ⟨{ BuildUnit.Rests.refl .properties u with bytes := ?_ }, rfl⟩
      rintro (other | kept)
      · cases other
      · rw [plain] at kept
        cases kept

end BundleFrontend

namespace Frontend

variable {f : Frontend}

/-- A phase that does not publish changes what only the unit itself uses, and may look names up. -/
theorem step_asks (plain : f.extensions = []) {phase : Phase} (quiet : phase ≠ .analyze4) (u : BuildUnit)
    (cx : Context) : u.Rests f.format (f.step phase u cx).1 ∧ cx.Asks (f.step phase u cx).2 := by
  cases failed : cx.hasErrors with
  | true =>
    rw [f.step_failed phase u failed]
    exact ⟨.refl _ u, .refl cx⟩
  | false =>
    cases kept : u.hasTypeInfo with
    | true =>
      rw [f.step_kept quiet kept]
      exact ⟨.refl _ u, .refl cx⟩
    | false =>
      obtain ⟨format, extensions⟩ := f
      cases plain
      have quietly {format : InputFormat} {u' : BuildUnit} {cx' : Context}
          (h : u.Rests format u' ∧ cx' = cx) : u.Rests format u' ∧ cx.Asks cx' :=
        ⟨h.1, h.2 ▸ .refl cx⟩
      cases format with
      | abc =>
        simp only [step, AbcFrontend.step, failed, kept, Bool.false_and, Bool.false_eq_true, if_false]
        cases phase with
        | analyze1 => exact quietly (AbcFrontend.frame_rests u cx)
        | analyze2 => exact AbcFrontend.inheritance_rests u cx
        | analyze3 => exact AbcFrontend.types_rests u cx
        | analyze4 => exact (quiet rfl).elim
        | generate => exact quietly (AbcFrontend.generate_rests u cx)
        | _ => simp only [Part.finish_nil]; exact ⟨.refl _ u, .refl cx⟩
      | properties =>
        simp only [step, BundleFrontend.step, failed, kept, Bool.false_and, Bool.false_eq_true, if_false]
        cases phase with
        | analyze1 => exact quietly (BundleFrontend.frame_rests u cx)
        | analyze4 => exact (quiet rfl).elim
        | generate => exact quietly (BundleFrontend.generate_rests kept cx)
        | _ => simp only [Part.finish_nil]; exact ⟨.refl _ u, .refl cx⟩

/-- Every phase but the one that publishes leaves the unit at rest, and adds no more than remarks to the
    context. -/
theorem step_rests (plain : f.extensions = []) {phase : Phase} (quiet : phase ≠ .analyze4) (u : BuildUnit)
    (cx : Context) : u.Rests f.format (f.step phase u cx).1 ∧ cx.Remarks (f.step phase u cx).2 :=
  (step_asks plain quiet u cx).imp_right Context.Asks.remarks

end Frontend

/-! ### The phase that publishes -/

/-- Whatever is reported, a step leaves things alone. -/
theorem Context.Evolves.any {cx cx' : Context} {kind : Diagnostic → Prop} (h : cx.Evolves kind cx') :
    cx.Evolves (fun _ => True) cx' := h.imp fun _ _ => trivial

/-- To publish a program leaves its unit in place, and the context with all that it had. -/
theorem AbcFrontend.publish_evolves (u : BuildUnit) {cx : Context} (ok : cx.hasErrors = false) :
    u.Stays .abc (publish [] u cx).1 ∧ cx.Evolves (fun _ => True) (publish [] u cx).2 := by
  have rests := BuildUnit.Stays.refl .abc u
  have table := cx.remarks_typeTable
  cases kept : u.hasTypeInfo with
  | true =>
    obtain ⟨entries, cx₁, published, publishes, -⟩ :=
      publishAll_publishes cx.typeTable.1 u cx.typeTable.2 u.classTable.values
    obtain ⟨loader, store, heq, searched⟩ := publish_kept kept published
    rw [heq]
    exact ⟨{ rests with }, ((table.any.trans publishes.any).trans (publishStyles_clashes _ _).1.any).trans
      searched.any⟩
  | false =>
    cases held : u.program? with
    | some program =>
      obtain ⟨entries, cx₁, loader, store, publishes, searched, heq⟩ :=
        publishProgram_eq cx.typeTable.1 (table.log.hasErrors_eq.trans ok)
      rw [publish_new kept held, heq]
      have before := table.trans (describing_remarks u _ program)
      have after := searched.trans (reports_remarks _ program u.source.name u.scratch.unresolved)
      exact ⟨{ rests with }, ((before.any.trans publishes.any).trans (publishStyles_clashes _ _).1.any).trans
        after.any⟩
    | none =>
      unfold publish
      simp only [held]
      rw [if_neg (ne_true_of_eq_false kept)]
      exact ⟨{ rests with }, table.any⟩

/-- To publish a bundle does so too. -/
theorem BundleFrontend.publish_evolves (u : BuildUnit) (cx : Context) :
    u.Stays .properties (publish [] u cx).1 ∧ cx.Evolves (fun _ => True) (publish [] u cx).2 := by
  have rests := BuildUnit.Stays.refl .properties u
  have noted : cx.Evolves (fun _ => True) { cx with registry := (registered u cx).1 } :=
    ⟨rfl, rfl, .refl _, .refl _ _⟩
  have start : cx.Evolves (fun _ => True) (opened u cx).2 := noted.trans (Context.remarks_typeTable _).any
  cases answer : (registered u cx).2 with
  | some e =>
    rw [publish_refused answer]
    exact ⟨rests, noted.trans (Context.evolves_report _ trivial)⟩
  | none =>
    cases kept : u.hasTypeInfo with
    | true =>
      obtain ⟨entries, cx₁, published, publishes, -⟩ :=
        publishAll_publishes _ u (opened u cx).2 u.classTable.values
      rw [publish_kept answer kept, publishTable, published]
      exact ⟨{ rests with }, start.trans publishes.any⟩
    | false =>
      cases held : u.properties? with
      | none =>
        unfold registered at answer
        simp only [publish, answer, kept, held, Bool.false_eq_true, if_false]
        exact ⟨rests, start⟩
      | some file =>
        obtain ⟨entries, cx₁, publishes, heq⟩ := publish_new answer kept held
        rw [heq]
        exact ⟨{ rests with }, start.trans publishes.any⟩

/-- Every step keeps what other units may rely on. -/
theorem Frontend.step_stays {f : Frontend} (plain : f.extensions = []) (phase : Phase) (u : BuildUnit)
    (cx : Context) :
    u.Stays f.format (f.step phase u cx).1 ∧ cx.Evolves (fun _ => True) (f.step phase u cx).2 := by
  by_cases publishes : phase = .analyze4
  · subst publishes
    cases failed : cx.hasErrors with
    | true =>
      rw [f.step_failed _ u failed]
      exact ⟨.refl _ u, .refl _ cx⟩
    | false =>
      rw [f.step_publishes u failed, plain]
      cases f.format with
      | abc => exact AbcFrontend.publish_evolves u failed
      | properties => exact BundleFrontend.publish_evolves u cx
  · obtain ⟨rests, remarks⟩ := step_rests plain publishes u cx
    exact ⟨rests.toStays, remarks.any⟩

end AbcBuild
