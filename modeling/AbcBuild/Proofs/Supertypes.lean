/-
Module: AbcBuild.Proofs.Supertypes
Purpose: Which supertype a class is told.  A frozen class is told the same again within a generation, as long
  as that class is held, even if another was registered under the name since.
Main exports: Process.last_answer_stays, Process.remembered?_eq_some_iff_last,
  Process.supertype_repeats_last_answer, Process.supertype_outlives_registration
-/
import AbcBuild.Proofs.Process

namespace AbcBuild.Process

variable {p : Process} {acts : List Act}

/-- A class that was told a supertype is frozen, and names one. -/
theorem last_answer_stays (ran : run acts = some p) {id s : ClassId} {g : Generation}
    (last : Act.Last (Act.answer? id) acts (g, s)) :
    p.store.isFrozen id = true ∧ ∃ d name, p.store.descriptor? id = some d ∧ d.superName = some name := by
  obtain ⟨before, a, after, q, rfl, ran', answers, -⟩ := last
  obtain ⟨r, held, registry, -, frozen, -, -, found⟩ := Act.answer?_eq_some answers
  obtain ⟨d, name, described, named, -⟩ := Hierarchy.superType_eq_some found
  have more : q.store.Extends p.store :=
    run_relates (fun q => .refl q.store) (fun _ _ _ => .trans) (fun _ _ _ => step_extends) ran' ran
  exact ⟨more.frozen id frozen, d, name, more.descriptors id d described, named⟩

/-- A class may use what it remembers exactly if it was told so last, in this generation, and that class is
    held. -/
theorem remembered?_eq_some_iff_last (ran : run acts = some p) {id s : ClassId} {record : ClassRecord}
    (there : p.store.get? id = some record) (registry : Registry) (held : ClassId → Bool) :
    Hierarchy.remembered? ⟨registry, held⟩ record = some s ↔
      Act.Last (Act.answer? id) acts (registry.generation, s) ∧ held s = true := by
  have link : p.store.link? id = record.superLink := by simp [ClassStore.link?, there]
  have frozen : p.store.isFrozen id = record.frozen := by simp [ClassStore.isFrozen, there]
  rw [Hierarchy.remembered?_eq_some_iff, ← link, link?_eq_some_iff_last ran]
  constructor
  · rintro ⟨-, last, used⟩
    exact ⟨last, used⟩
  · rintro ⟨last, used⟩
    exact ⟨frozen ▸ (last_answer_stays ran last).1, last, used⟩

/-- Whatever was done in a process, a class is told its supertype again as long as the registry is in the
    generation in which it was told last and that class is held.  Else it is told the class that the registry
    has under the name.  So it is told what the registry has exactly if that is what it was told last, or it
    may not be told that again. -/
theorem supertype_repeats_last_answer (ran : run acts = some p) {id : ClassId} {d : ClassDescriptor}
    (described : p.store.descriptor? id = some d) (registry : Registry) (held : ClassId → Bool) :
    (∀ s, Act.Last (Act.answer? id) acts (registry.generation, s) → held s = true →
        (Hierarchy.superType ⟨registry, held⟩ p.store id).1 = some s) ∧
      ((Hierarchy.superType ⟨registry, held⟩ p.store id).1 = d.superName.bind registry.class? ↔
        ∀ s, Act.Last (Act.answer? id) acts (registry.generation, s) → held s = true →
          d.superName.bind registry.class? = some s) := by
  obtain ⟨record, there, rfl⟩ := Option.map_eq_some_iff.1 described
  rw [Hierarchy.superType_fst _ there]
  cases named : record.descriptor.superName with
  | none =>
    have never (s : ClassId) (last : Act.Last (Act.answer? id) acts (registry.generation, s)) : False := by
      obtain ⟨-, d, name, described', named'⟩ := last_answer_stays ran last
      cases described.symm.trans described'
      cases named.symm.trans named'
    exact ⟨fun s last => (never s last).elim, fun _ s last => (never s last).elim, fun _ => rfl⟩
  | some name =>
    have told := @remembered?_eq_some_iff_last p acts ran id
    cases remembers : Hierarchy.remembered? ⟨registry, held⟩ record with
    | none =>
      have never (s : ClassId) (last : Act.Last (Act.answer? id) acts (registry.generation, s))
          (used : held s = true) : False := by
        cases remembers.symm.trans ((told there registry held).2 ⟨last, used⟩)
      exact ⟨fun s last used => (never s last used).elim, fun _ s last used => (never s last used).elim,
        fun _ => rfl⟩
    | some found =>
      have same (s : ClassId) (last : Act.Last (Act.answer? id) acts (registry.generation, s))
          (used : held s = true) : some found = some s :=
        remembers.symm.trans ((told there registry held).2 ⟨last, used⟩)
      obtain ⟨last, used⟩ := (told there registry held).1 remembers
      exact ⟨same, fun agrees s last used => agrees.symm.trans (same s last used),
        fun all => (all found last used).symm⟩

/-- A frozen class is asked for its supertype before and after another class takes over the supertype's
    name. -/
def replacement : List Act :=
  [.newRegistry, .newClass { name := "pkg:B", source := some "old.abc" },
   .newClass { name := "pkg:B", source := some "new.abc" },
   .newClass { name := "pkg:A", superName := some "pkg:B" },
   .freeze 3, .register 0 "pkg:B" 1, .superType 0 (fun _ => true) 3, .register 0 "pkg:B" 2]

/-- At the end there is one registry, which has the new class. -/
theorem run_replacement : ∃ p registry d, run replacement = some p ∧ p.registries = [registry] ∧
    p.store.descriptor? 3 = some d ∧ d.superName.bind registry.class? = some 2 ∧
    (Hierarchy.superType ⟨registry, fun _ => true⟩ p.store 3).1 = some 1 := by
  have ends : (run replacement).any (fun p => p.registries.length = 1 && (p.store.descriptor? 3).any fun d =>
    p.registries.all fun registry => d.superName.bind registry.class? = some 2 &&
      (Hierarchy.superType ⟨registry, fun _ => true⟩ p.store 3).1 = some 1) = true := by decide +kernel
  obtain ⟨p, ran, holds⟩ := (Option.any_eq_true ..).1 ends
  obtain ⟨alone, holds⟩ := Bool.and_eq_true_iff.1 holds
  obtain ⟨registry, alone⟩ := List.length_eq_one_iff.1 (of_decide_eq_true alone)
  obtain ⟨d, described, holds⟩ := (Option.any_eq_true ..).1 holds
  have member : registry ∈ p.registries := alone ▸ List.mem_singleton_self registry
  obtain ⟨current, told⟩ := Bool.and_eq_true_iff.1 (List.all_eq_true.1 holds registry member)
  exact ⟨p, registry, d, ran, alone, described, of_decide_eq_true current, of_decide_eq_true told⟩

theorem supertype_repeats_last_answer_replacement : ∃ p registry d, run replacement = some p ∧
    p.registries = [registry] ∧ p.store.descriptor? 3 = some d ∧
    ∃ s, Act.Last (Act.answer? 3) replacement (registry.generation, s) ∧
      d.superName.bind registry.class? ≠ some s := by
  obtain ⟨p, registry, d, ran, alone, described, current, told⟩ := run_replacement
  refine ⟨p, registry, d, ran, alone, described, ?_⟩
  obtain ⟨-, agrees⟩ := supertype_repeats_last_answer ran described registry fun _ => true
  rw [current, told] at agrees
  have differs := mt agrees.2 (by decide)
  push Not at differs
  obtain ⟨s, last, -, other⟩ := differs
  exact ⟨s, last, current ▸ other⟩

/-- In a process with one registry, a class is told a supertype that the registry has no more. -/
theorem supertype_outlives_registration :
    ¬ ∀ (acts : List Act) (p : Process) (registry : Registry) (id : ClassId) (d : ClassDescriptor),
      run acts = some p → p.registries = [registry] → p.store.descriptor? id = some d →
      (Hierarchy.superType ⟨registry, fun _ => true⟩ p.store id).1 = d.superName.bind registry.class? := by
  intro transparent
  obtain ⟨p, registry, d, ran, alone, described, current, told⟩ := run_replacement
  have same := transparent replacement p registry 3 d ran alone described
  rw [current, told] at same
  cases same

end AbcBuild.Process
