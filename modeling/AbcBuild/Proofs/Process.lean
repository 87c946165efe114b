/-
Module: AbcBuild.Proofs.Process
Purpose: A process with any number of registries over one store of classes, and what its parts hold after any
  sequence of acts.  A part of a class's record is what the last act that touched it left there.
Main exports: Handle, Process, Process.bound?_eq_some_iff_last, Process.link?_eq_some_iff_last
-/
import Mathlib.Data.List.Induction
import AbcBuild.Proofs.Effects

namespace AbcBuild

variable {p : Process} {a : Act}

/-- A type table with the registry that gave it out, and the generation that the registry was in. -/
structure Handle where
  registry : Nat
  generation : Generation
  table : TypeTable
deriving Repr, DecidableEq

/-- The registries of a process, the classes that they share, and the type tables given out so far. -/
structure Process where
  store : ClassStore := {}
  registries : List Registry := []
  handles : List Handle := []
deriving Repr, DecidableEq

/-- What can be done in a process.  Registries, classes and type tables are known by their places. -/
inductive Act where
  | newRegistry
  | newClass (d : ClassDescriptor)
  | register (registry : Nat) (name : String) (id : ClassId)
  | typeTable (registry : Nat)
  | bind (handle : Nat) (id : ClassId)
  | unbind (id : ClassId)
  | freeze (id : ClassId)
  /-- Ask for a supertype, while the classes `held` are in use. -/
  | superType (registry : Nat) (held : ClassId → Bool) (id : ClassId)
  | clean (registry : Nat)

namespace Process

/-- The process after an act, if there is what the act is about. -/
def step (p : Process) : Act → Option Process
  | .newRegistry =>
    some { p with store := p.store.newRegistry.2, registries := p.registries ++ [p.store.newRegistry.1] }
  | .newClass d => some { p with store := (p.store.add d).2 }
  | .register r name id =>
    (p.registries[r]?.filter fun _ => id < p.store.records.length).map fun registry =>
      { p with registries := p.registries.set r (registry.registerClass p.store name id).1 }
  | .typeTable r =>
    p.registries[r]?.map fun registry =>
      { p with
        registries := p.registries.set r registry.currentTable.2
        handles := p.handles ++ [⟨r, registry.generation, registry.currentTable.1⟩] }
  | .bind h id =>
    (p.handles[h]?.filter fun _ => id < p.store.records.length).map fun handle =>
      { p with store := p.store.bind id handle.table }
  | .unbind id => some { p with store := p.store.unbind id }
  | .freeze id => some { p with store := p.store.freeze id }
  | .superType r held id =>
    p.registries[r]?.map fun registry =>
      { p with store := (Hierarchy.superType ⟨registry, held⟩ p.store id).2 }
  | .clean r =>
    p.registries[r]?.map fun registry =>
      { p with
        store := (p.store.startGeneration registry).2
        registries := p.registries.set r (p.store.startGeneration registry).1 }

/-- The process after a sequence of acts, from one with nothing in it. -/
def run (acts : List Act) : Option Process := acts.foldlM step {}

theorem run_concat (acts : List Act) (a : Act) : run (acts ++ [a]) = (run acts).bind fun p => p.step a := by
  simp [run, List.foldlM_append]

variable {acts : List Act} {p : Process}

/-- The last act of a run, and the process before it. -/
theorem run_concat_eq_some (ran : run (acts ++ [a]) = some p) :
    ∃ q, run acts = some q ∧ q.step a = some p := by
  rw [run_concat] at ran
  exact Option.bind_eq_some_iff.1 ran

/-- What holds between a process and itself, and after every act, holds between any two moments of a run. -/
theorem run_relates {R : Process → Process → Prop} (refl : ∀ p, R p p)
    (trans : ∀ p q r, R p q → R q r → R p r) (step : ∀ p a p', p.step a = some p' → R p p') {more : List Act}
    {p' : Process} (ran : run acts = some p) (ran' : run (acts ++ more) = some p') : R p p' := by
  induction more using List.reverseRecOn generalizing p' with
  | nil =>
    rw [List.append_nil, ran] at ran'
    cases ran'
    exact refl p
  | append_singleton more a ih =>
    rw [← List.append_assoc] at ran'
    obtain ⟨q, before, last⟩ := run_concat_eq_some ran'
    exact trans p q p' (ih before) (step q a p' last)

/-- What holds at the start and is kept by every act holds after any run. -/
theorem run_keeps {holds : Process → Prop} (start : holds {})
    (step : ∀ p a p', holds p → p.step a = some p' → holds p') (ran : run acts = some p) : holds p :=
  run_relates (R := fun p p' => holds p → holds p') (fun _ => id) (fun _ _ _ first second => second ∘ first)
    (fun p a p' stepped before => step p a p' before stepped) (rfl : run [] = some {}) ran start

/-- `q` is what the process was at some moment of the run. -/
def Moment (acts : List Act) (q : Process) : Prop := ∃ before, before <+: acts ∧ run before = some q

theorem Moment.last (ran : run acts = some p) : Moment acts p :=
  ⟨acts, List.prefix_rfl, ran⟩

theorem Moment.concat {q : Process} (h : Moment acts q) (a : Act) : Moment (acts ++ [a]) q := by
  obtain ⟨before, early, ran⟩ := h
  exact ⟨before, early.trans (List.prefix_append acts [a]), ran⟩

end Process

/-! ### The last act with an effect -/

namespace Act

open Process

variable {β : Type} {effect : Process → Act → Option β}

/-- The last of the acts to have the effect gives `v`. -/
def Last (effect : Process → Act → Option β) (acts : List Act) (v : β) : Prop :=
  ∃ before a after p, acts = before ++ a :: after ∧ run before = some p ∧ effect p a = some v ∧
    ∀ mid b rest q, after = mid ++ b :: rest → run (before ++ a :: mid) = some q → effect q b = none

theorem not_last_nil {v : β} : ¬ Last effect [] v := by
  rintro ⟨before, a, after, p, split, -⟩
  cases before <;> cases split

/-- The last act either has the effect or leaves it as it was. -/
theorem last_concat {acts : List Act} (ran : run acts = some p) {v : β} :
    Last effect (acts ++ [a]) v ↔ effect p a = some v ∨ effect p a = none ∧ Last effect acts v := by
  constructor
  · rintro ⟨before, b, after, q, split, first, gives, kept⟩
    rcases List.eq_nil_or_concat after with rfl | ⟨mid, c, rfl⟩
    · obtain ⟨rfl, last⟩ := List.append_inj' split rfl
      cases last
      rw [ran] at first
      cases first
      exact Or.inl gives
    · have split : acts ++ [a] = (before ++ b :: mid) ++ [c] := by simpa using split
      obtain ⟨rfl, last⟩ := List.append_inj' split rfl
      cases last
      refine Or.inr ⟨kept mid a [] p (List.concat_eq_append) ran, before, b, mid, q, rfl, first, gives, ?_⟩
      intro mid' c rest q' within ran'
      refine kept mid' c (rest ++ [a]) q' ?_ ran'
      rw [List.concat_eq_append, within]
      simp
  · rintro (gives | ⟨none, before, b, after, q, rfl, first, gives, kept⟩)
    · refine ⟨acts, a, [], p, rfl, ran, gives, ?_⟩
      intro mid b rest q within
      cases mid <;> cases within
    · refine ⟨before, b, after ++ [a], q, by simp, first, gives, ?_⟩
      intro mid c rest q' within ran'
      rcases List.eq_nil_or_concat rest with rfl | ⟨rest, d, rfl⟩
      · obtain ⟨rfl, last⟩ := List.append_inj' within rfl
        cases last
        rw [ran] at ran'
        cases ran'
        exact none
      · have within : after ++ [a] = (mid ++ c :: rest) ++ [d] := by simpa using within
        obtain ⟨rfl, -⟩ := List.append_inj' within rfl
        exact kept mid c rest q' rfl ran'

end Act

namespace Process

variable {β γ : Type}

/-- What every act with the effect sets, and every other leaves alone, is as the last act with the effect set
    it. -/
theorem read_eq_some_iff_last (read : Process → Option γ) {effect : Process → Act → Option β}
    {set : β → Option γ} (start : read {} = none)
    (stepwise : ∀ p a p', p.step a = some p' → read p' = (effect p a).elim (read p) set) {acts : List Act}
    (ran : run acts = some p) (v : γ) :
    read p = some v ↔ ∃ b, Act.Last effect acts b ∧ set b = some v := by
  induction acts using List.reverseRecOn generalizing p with
  | nil =>
    cases ran
    simp [start, Act.not_last_nil]
  | append_singleton acts a ih =>
    obtain ⟨q, before, last⟩ := run_concat_eq_some ran
    rw [stepwise q a p last]
    simp only [Act.last_concat before]
    cases effect q a with
    | none => simpa using ih before
    | some b => simp

end Process

/-! ### Bindings and remembered supertypes -/

namespace Act

/-- The type table that an act binds a class to, or that the act unbinds it. -/
def rebinding? (id : ClassId) (p : Process) : Act → Option (Option Handle)
  | .bind h other => if other = id then p.handles[h]?.map some else none
  | .unbind other => if other = id then some none else none
  | .clean r =>
    if p.registries[r]?.any fun registry => registry.classes.values.contains id then some none else none
  | _ => none

/-- The supertype that an act finds for a frozen class, and the generation of the registry that was asked. -/
def answer? (id : ClassId) (p : Process) : Act → Option (Generation × ClassId)
  | .superType r held other =>
    if other = id ∧ p.store.isFrozen id = true then
      p.registries[r]?.bind fun registry =>
        (Hierarchy.superType ⟨registry, held⟩ p.store id).1.map (registry.generation, ·)
    else none
  | _ => none

theorem mem_handles_of_rebinding {id : ClassId} {h : Handle}
    (binds : a.rebinding? id p = some (some h)) : h ∈ p.handles := by
  cases a with
  | bind k other =>
    obtain ⟨-, given⟩ := Option.ite_none_right_eq_some.1 binds
    obtain ⟨h, known, same⟩ := Option.map_eq_some_iff.1 given
    cases same
    exact List.mem_of_getElem? known
  | unbind | clean => cases (Option.ite_none_right_eq_some.1 binds).2
  | _ => cases binds

theorem answer?_eq_some {id s : ClassId} {g : Generation} (h : a.answer? id p = some (g, s)) :
    ∃ r held registry, a = .superType r held id ∧ p.store.isFrozen id = true ∧
      p.registries[r]? = some registry ∧ registry.generation = g ∧
        (Hierarchy.superType ⟨registry, held⟩ p.store id).1 = some s := by
  cases a with
  | superType r held other =>
    obtain ⟨⟨rfl, frozen⟩, asked⟩ := Option.ite_none_right_eq_some.1 h
    obtain ⟨registry, known, found⟩ := Option.bind_eq_some_iff.1 asked
    obtain ⟨s, found, same⟩ := Option.map_eq_some_iff.1 found
    cases same
    exact ⟨r, held, registry, rfl, frozen, known, rfl, found⟩
  | _ => cases h

end Act

namespace Process

variable {p p' : Process} {a : Act}

theorem step_extends (h : p.step a = some p') : p.store.Extends p'.store := by
  cases a with
  | newRegistry =>
    cases h
    exact p.store.extends_newRegistry
  | newClass d =>
    cases h
    exact p.store.extends_add d
  | register | typeTable =>
    obtain ⟨registry, -, rfl⟩ := Option.map_eq_some_iff.1 h
    exact .refl _
  | bind k id =>
    obtain ⟨handle, -, rfl⟩ := Option.map_eq_some_iff.1 h
    exact p.store.extends_bind id handle.table
  | unbind id =>
    cases h
    exact p.store.extends_unbind id
  | freeze id =>
    cases h
    exact p.store.extends_freeze id
  | superType r held id =>
    obtain ⟨registry, -, rfl⟩ := Option.map_eq_some_iff.1 h
    exact .of_unlinked (Hierarchy.unlinked_superType _ p.store id)
  | clean r =>
    obtain ⟨registry, -, rfl⟩ := Option.map_eq_some_iff.1 h
    exact p.store.extends_startGeneration registry

theorem bound?_step (id : ClassId) (h : p.step a = some p') :
    p'.store.bound? id = (a.rebinding? id p).elim (p.store.bound? id) (Option.map Handle.table) := by
  cases a with
  | newRegistry =>
    cases h
    exact p.store.bound?_newRegistry id
  | newClass d =>
    cases h
    exact p.store.bound?_add d id
  | register | typeTable =>
    obtain ⟨registry, -, rfl⟩ := Option.map_eq_some_iff.1 h
    rfl
  | bind k other =>
    obtain ⟨handle, known, rfl⟩ := Option.map_eq_some_iff.1 h
    obtain ⟨known, there⟩ := Option.filter_eq_some_iff.1 known
    rw [ClassStore.bound?_bind (of_decide_eq_true there)]
    simp only [Act.rebinding?, known]
    split <;> rfl
  | unbind other =>
    cases h
    rw [ClassStore.bound?_unbind]
    simp only [Act.rebinding?]
    split <;> rfl
  | freeze other =>
    cases h
    exact p.store.bound?_freeze other id
  | superType r held other =>
    obtain ⟨registry, -, rfl⟩ := Option.map_eq_some_iff.1 h
    exact ClassStore.bound?_of_unlinked (Hierarchy.unlinked_superType _ p.store other) id
  | clean r =>
    obtain ⟨registry, known, rfl⟩ := Option.map_eq_some_iff.1 h
    rw [ClassStore.bound?_startGeneration]
    simp only [Act.rebinding?, known, Option.any_some, List.contains_iff_mem]
    split <;> rfl

theorem link?_step (id : ClassId) (h : p.step a = some p') :
    p'.store.link? id = (a.answer? id p).elim (p.store.link? id) some := by
  cases a with
  | newRegistry =>
    cases h
    exact p.store.link?_newRegistry id
  | newClass d =>
    cases h
    exact p.store.link?_add d id
  | register | typeTable =>
    obtain ⟨registry, -, rfl⟩ := Option.map_eq_some_iff.1 h
    rfl
  | bind k other =>
    obtain ⟨handle, -, rfl⟩ := Option.map_eq_some_iff.1 h
    exact p.store.link?_bind other id handle.table
  | unbind other =>
    cases h
    exact p.store.link?_unbind other id
  | freeze other =>
    cases h
    exact p.store.link?_freeze other id
  | superType r held other =>
    obtain ⟨registry, known, rfl⟩ := Option.map_eq_some_iff.1 h
    rw [Hierarchy.link?_superType]
    simp only [Act.answer?, known, Option.bind_some]
    by_cases asked : other = id ∧ p.store.isFrozen id = true
    · obtain ⟨rfl, frozen⟩ := asked
      simp only [frozen, and_self, if_true]
      cases (Hierarchy.superType ⟨registry, held⟩ p.store other).1 <;> rfl
    · have asked' : ¬ (other = id ∧ p.store.isFrozen other = true) := fun h => asked ⟨h.1, h.1 ▸ h.2⟩
      rw [if_neg asked, if_neg asked']
      rfl
  | clean r =>
    obtain ⟨registry, -, rfl⟩ := Option.map_eq_some_iff.1 h
    exact p.store.link?_startGeneration registry id

variable {acts : List Act}

/-- A class is bound as the last act that bound or unbound it says. -/
theorem bound?_eq_some_iff_last (ran : run acts = some p) (id : ClassId) (table : TypeTable) :
    p.store.bound? id = some table ↔ ∃ h :
    Handle, Act.Last (Act.rebinding? id) acts (some h) ∧ h.table = table := by
  have last :=
    read_eq_some_iff_last (fun p => p.store.bound? id) rfl (fun p a p' => bound?_step id) ran table
  rw [last]
  constructor
  · rintro ⟨b, before, bound⟩
    obtain ⟨h, rfl, same⟩ := Option.map_eq_some_iff.1 bound
    exact ⟨h, before, same⟩
  · rintro ⟨h, before, same⟩
    exact ⟨some h, before, congrArg some same⟩

/-- A class remembers the last supertype found for it since it was frozen. -/
theorem link?_eq_some_iff_last (ran : run acts = some p) (id : ClassId) (generation : Generation)
    (s : ClassId) :
    p.store.link? id = some (generation, s) ↔ Act.Last (Act.answer? id) acts (generation, s) := by
  have last := read_eq_some_iff_last (fun p => p.store.link? id) rfl (fun p a p' => link?_step id) ran
    (generation, s)
  simpa using last

end Process

end AbcBuild
