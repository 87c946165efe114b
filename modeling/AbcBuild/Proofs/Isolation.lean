/-
Module: AbcBuild.Proofs.Isolation
Purpose: Builds that share their classes do not disturb each other.  Whatever is done in a process, no
  generation ever serves two registries, so a binding or a remembered supertype of one build is none of
  another.
Main exports: Process.generation?, Process.Fresh, Process.link?_founded, Process.builds_are_isolated
-/
import AbcBuild.Proofs.Process

namespace AbcBuild

namespace Process

variable {p p' q : Process} {a : Act} {acts : List Act} {g : Generation} {registry : Registry} {r : Nat}

/-! ### Generations -/

/-- The generation that the registry at a place is in. -/
def generation? (p : Process) (r : Nat) : Option Generation := p.registries[r]?.map Registry.generation

theorem generation?_of_registry (known : p.registries[r]? = some registry) :
    p.generation? r = some registry.generation := congrArg (Option.map Registry.generation) known

/-- A registry that is replaced by one in the same generation. -/
theorem generation?_set {new : Registry} (known : p.registries[r]? = some registry)
    (same : new.generation = registry.generation) (other : Nat) :
    (p.registries.set r new)[other]?.map Registry.generation = p.generation? other := by
  by_cases here : r = other
  · subst here
    rw [List.getElem?_set_self (List.getElem?_eq_some_iff.1 known).1, generation?_of_registry known,
      Option.map_some, same]
  · rw [List.getElem?_set_ne here, generation?]

/-- An act gives out at most one generation, the next, to one registry. -/
theorem generation?_step (h : p.step a = some p') :
    ((∀ r, p'.generation? r = p.generation? r) ∧ p'.store.nextGeneration = p.store.nextGeneration) ∨
      p'.store.nextGeneration = p.store.nextGeneration + 1 ∧
        ∃ new, ∀ r, p'.generation? r = if r = new then some p.store.nextGeneration else p.generation? r := by
  cases a with
  | newRegistry =>
    cases h
    refine Or.inr ⟨rfl, p.registries.length, fun r => ?_⟩
    rw [generation?, generation?, List.getElem?_append]
    split
    next below => rw [if_neg (Nat.ne_of_lt below)]
    next beyond =>
      by_cases new : r = p.registries.length
      · rw [if_pos new, new, Nat.sub_self]
        rfl
      · have past : 1 ≤ r - p.registries.length := by omega
        rw [if_neg new, List.getElem?_eq_none past, List.getElem?_eq_none (Nat.le_of_not_lt beyond)]
  | newClass | unbind | freeze =>
    cases h
    exact Or.inl ⟨fun r => rfl, rfl⟩
  | register r name id =>
    obtain ⟨registry, known, rfl⟩ := Option.map_eq_some_iff.1 h
    obtain ⟨known, -⟩ := Option.filter_eq_some_iff.1 known
    exact Or.inl ⟨generation?_set known rfl, rfl⟩
  | typeTable r =>
    obtain ⟨registry, known, rfl⟩ := Option.map_eq_some_iff.1 h
    exact Or.inl ⟨generation?_set known registry.generation_currentTable, rfl⟩
  | bind k id =>
    obtain ⟨handle, -, rfl⟩ := Option.map_eq_some_iff.1 h
    exact Or.inl ⟨fun r => rfl, rfl⟩
  | superType r held id =>
    obtain ⟨registry, -, rfl⟩ := Option.map_eq_some_iff.1 h
    exact Or.inl ⟨fun r => rfl, ClassStore.nextGeneration_of_unlinked
      (Hierarchy.unlinked_superType _ p.store id)⟩
  | clean r =>
    obtain ⟨registry, known, rfl⟩ := Option.map_eq_some_iff.1 h
    have next : (p.store.startGeneration registry).1.generation = p.store.nextGeneration :=
      p.store.generation_startGeneration registry
    refine Or.inr ⟨p.store.nextGeneration_startGeneration registry, r, fun other => ?_⟩
    by_cases here : r = other
    · subst here
      rw [generation?, List.getElem?_set_self (List.getElem?_eq_some_iff.1 known).1, Option.map_some,
        next, if_pos rfl]
    · rw [generation?, List.getElem?_set_ne here, if_neg (Ne.symm here), generation?]

/-- Each registry has a generation of its own, given out before. -/
structure Fresh (p : Process) : Prop where
  next : 0 < p.store.nextGeneration
  given : ∀ r g, p.generation? r = some g → 0 < g ∧ g < p.store.nextGeneration
  distinct : ∀ r r' g, p.generation? r = some g → p.generation? r' = some g → r = r'

theorem Fresh.step (h : p.Fresh) (stepped : p.step a = some p') : p'.Fresh := by
  rcases generation?_step stepped with ⟨same, next⟩ | ⟨next, new, gives⟩
  · refine ⟨next ▸ h.next, fun r g found => ?_, fun r r' g found found' => ?_⟩
    · rw [next]
      exact h.given r g (same r ▸ found)
    · exact h.distinct r r' g (same r ▸ found) (same r' ▸ found')
  · -- The generation given out is above all others.
    have older (r : Nat) (g : Generation) (found : p'.generation? r = some g) :
        r = new ∧ g = p.store.nextGeneration ∨ r ≠ new ∧ p.generation? r = some g := by
      rw [gives] at found
      split at found
      next here => exact Or.inl ⟨here, (Option.some.inj found).symm⟩
      next other => exact Or.inr ⟨other, found⟩
    refine ⟨next ▸ Nat.succ_pos _, fun r g found => ?_, fun r r' g found found' => ?_⟩
    · rw [next]
      rcases older r g found with ⟨-, rfl⟩ | ⟨-, old⟩
      · exact ⟨h.next, Nat.lt_succ_self _⟩
      · exact ⟨(h.given r g old).1, Nat.lt_succ_of_lt (h.given r g old).2⟩
    · rcases older r g found with ⟨here, now⟩ | ⟨-, old⟩
      · rcases older r' g found' with ⟨here', -⟩ | ⟨-, old'⟩
        · exact here.trans here'.symm
        · exact absurd now (Nat.ne_of_lt (h.given r' g old').2)
      · rcases older r' g found' with ⟨-, now⟩ | ⟨-, old'⟩
        · exact absurd now (Nat.ne_of_lt (h.given r g old).2)
        · exact h.distinct r r' g old old'

theorem fresh_run (ran : run acts = some p) : p.Fresh := by
  refine run_keeps ⟨Nat.one_pos, fun r g found => ?_, fun r r' g found => ?_⟩ (fun _ _ _ => Fresh.step) ran
  · cases found
  · cases found

/-! ### Generations over time -/

/-- As time goes on a registry keeps its generation or gets one that was not given out before. -/
structure Precedes (q p : Process) : Prop where
  next : q.store.nextGeneration ≤ p.store.nextGeneration
  generations : ∀ r g, p.generation? r = some g → q.generation? r = some g ∨ q.store.nextGeneration ≤ g

theorem Precedes.refl (p : Process) : p.Precedes p := ⟨Nat.le_refl _, fun _ _ found => Or.inl found⟩

theorem Precedes.trans (first : q.Precedes p) (second : p.Precedes p') : q.Precedes p' := by
  refine ⟨Nat.le_trans first.next second.next, fun r g found => ?_⟩
  rcases second.generations r g found with before | new
  · exact first.generations r g before
  · exact Or.inr (Nat.le_trans first.next new)

theorem precedes_step (stepped : p.step a = some p') : p.Precedes p' := by
  rcases generation?_step stepped with ⟨same, next⟩ | ⟨next, new, gives⟩
  · exact ⟨Nat.le_of_eq next.symm, fun r g found => Or.inl (same r ▸ found)⟩
  · refine ⟨next ▸ Nat.le_succ _, fun r g found => ?_⟩
    rw [gives] at found
    split at found
    next => exact Or.inr (Nat.le_of_eq (Option.some.inj found))
    next => exact Or.inl found

theorem owner_of_earlier {before after : List Act} (early : before <+: after) (ran : run before = some q)
    (ran' : run after = some p) {r' : Nat} (first : q.generation? r = some g)
    (second : p.generation? r' = some g) : r = r' := by
  obtain ⟨more, rfl⟩ := early
  have precedes : q.Precedes p :=
    run_relates .refl (fun _ _ _ => .trans) (fun _ _ _ => precedes_step) ran ran'
  rcases precedes.generations r' g second with same | new
  · exact (fresh_run ran).distinct r r' g first same
  · exact absurd ((fresh_run ran).given r g first).2 (Nat.not_lt.2 new)

/-- A generation never serves two registries, not even at different moments. -/
theorem owner_unique (first : Moment acts q) (second : Moment acts p) {r' : Nat}
    (serves : q.generation? r = some g) (serves' : p.generation? r' = some g) : r = r' := by
  obtain ⟨before, early, ran⟩ := first
  obtain ⟨before', early', ran'⟩ := second
  rcases List.prefix_or_prefix_of_prefix early early' with earlier | earlier
  · exact owner_of_earlier earlier ran ran' serves serves'
  · exact (owner_of_earlier earlier ran' ran serves' serves).symm

/-! ### What was given out -/

theorem current_step (h : ∀ registry ∈ p.registries, registry.Current) (stepped : p.step a = some p') :
    ∀ registry ∈ p'.registries, registry.Current := by
  -- At most one registry is replaced.
  have replaced {r : Nat} {new : Registry} (current : new.Current) :
      ∀ registry ∈ p.registries.set r new, registry.Current := by
    intro registry member
    rcases List.mem_or_eq_of_mem_set member with old | rfl
    · exact h registry old
    · exact current
  cases a with
  | newRegistry =>
    cases stepped
    intro registry member
    rcases List.mem_append.1 member with old | new
    · exact h registry old
    · cases List.mem_singleton.1 new
      exact fun table kept => by cases kept
  | newClass | unbind | freeze =>
    cases stepped
    exact h
  | register r name id =>
    obtain ⟨registry, known, rfl⟩ := Option.map_eq_some_iff.1 stepped
    obtain ⟨known, -⟩ := Option.filter_eq_some_iff.1 known
    exact replaced (h registry (List.mem_of_getElem? known))
  | typeTable r =>
    obtain ⟨registry, known, rfl⟩ := Option.map_eq_some_iff.1 stepped
    exact replaced (h registry (List.mem_of_getElem? known)).currentTable
  | bind k id =>
    obtain ⟨handle, -, rfl⟩ := Option.map_eq_some_iff.1 stepped
    exact h
  | superType r held id =>
    obtain ⟨registry, -, rfl⟩ := Option.map_eq_some_iff.1 stepped
    exact h
  | clean r =>
    obtain ⟨registry, -, rfl⟩ := Option.map_eq_some_iff.1 stepped
    exact replaced fun table kept => by cases kept

theorem current_run (ran : run acts = some p) : ∀ registry ∈ p.registries, registry.Current := by
  refine run_keeps (fun registry member => ?_) (fun _ _ _ => current_step) ran
  cases member

/-- A type table is given out by a registry that is asked for it. -/
theorem handles_step (stepped : p.step a = some p') : p'.handles = p.handles ∨
    ∃ (r : Nat) (registry : Registry), p.registries[r]? = some registry ∧
      p'.handles = p.handles ++ [⟨r, registry.generation, registry.currentTable.1⟩] := by
  cases a with
  | newRegistry | newClass _ | unbind _ | freeze _ =>
    cases stepped
    exact Or.inl rfl
  | typeTable r =>
    obtain ⟨registry, known, rfl⟩ := Option.map_eq_some_iff.1 stepped
    exact Or.inr ⟨r, registry, known, rfl⟩
  | register _ _ _ | bind _ _ | superType _ _ _ | clean _ =>
    obtain ⟨_, -, rfl⟩ := Option.map_eq_some_iff.1 stepped
    exact Or.inl rfl

/-- A type table that was given out is the one of a generation that its registry was in. -/
theorem handle_owned (ran : run acts = some p) {h : Handle} (member : h ∈ p.handles) :
    h.table = ⟨h.generation⟩ ∧ ∃ q, Moment acts q ∧ q.generation? h.registry = some h.generation := by
  induction acts using List.reverseRecOn generalizing p with
  | nil =>
    cases ran
    cases member
  | append_singleton acts a ih =>
    obtain ⟨q, before, last⟩ := run_concat_eq_some ran
    have earlier (old : h ∈ q.handles) : h.table = ⟨h.generation⟩ ∧
        ∃ q, Moment (acts ++ [a]) q ∧ q.generation? h.registry = some h.generation := by
      obtain ⟨table, q', moment, serves⟩ := ih before old
      exact ⟨table, q', moment.concat a, serves⟩
    rcases handles_step last with same | ⟨r, registry, known, more⟩
    · exact earlier (same ▸ member)
    · rw [more] at member
      rcases List.mem_append.1 member with old | new
      · exact earlier old
      · cases List.mem_singleton.1 new
        have current := current_run before registry (List.mem_of_getElem? known)
        exact ⟨current.fst_currentTable, q, (Moment.last before).concat a, generation?_of_registry known⟩

/-! ### Remembered supertypes -/

/-- At some moment of the run the registry at a place was in the generation and had the class under the
    name. -/
def Registered (acts : List Act) (r : Nat) (g : Generation) (name : String) (id : ClassId) : Prop :=
  ∃ (q : Process) (registry : Registry), Moment acts q ∧ q.registries[r]? = some registry ∧
    registry.generation = g ∧ registry.class? name = some id

theorem Registered.concat {name : String} {id : ClassId} (h : Registered acts r g name id)
    (a : Act) : Registered (acts ++ [a]) r g name id := by
  obtain ⟨q, registry, moment, rest⟩ := h
  exact ⟨q, registry, moment.concat a, rest⟩

/-- What a class remembers was once registered under the name of its supertype, in the generation that is
    noted. -/
theorem link?_founded (ran : run acts = some p) {id s : ClassId}
    (remembers : p.store.link? id = some (g, s)) :
    ∃ d name r, p.store.descriptor? id = some d ∧ d.superName = some name ∧ Registered acts r g name s := by
  induction acts using List.reverseRecOn generalizing p with
  | nil =>
    cases ran
    cases remembers
  | append_singleton acts a ih =>
    obtain ⟨q, before, last⟩ := run_concat_eq_some ran
    have stays := (step_extends last).descriptors id
    have earlier (remembered : q.store.link? id = some (g, s)) :
        ∃ d name r, p.store.descriptor? id = some d ∧ d.superName = some name ∧
          Registered (acts ++ [a]) r g name s := by
      obtain ⟨d, name, r, described, named, once⟩ := ih before remembered
      exact ⟨d, name, r, stays d described, named, once.concat a⟩
    rw [link?_step id last] at remembers
    cases answers : a.answer? id q with
    | none =>
      rw [answers] at remembers
      exact earlier remembers
    | some answer =>
      rw [answers] at remembers
      cases remembers
      obtain ⟨r, held, registry, rfl, -, known, rfl, found⟩ := Act.answer?_eq_some answers
      obtain ⟨d, name, described, named, now | ⟨-, link, -⟩⟩ := Hierarchy.superType_eq_some found
      · exact ⟨d, name, r, stays d described, named, q, registry, (Moment.last before).concat _,
          known, rfl, now⟩
      · exact earlier link

/-- A supertype that is found was registered, in the generation that the registry is in. -/
theorem superType_registered (ran : run acts = some p)
    (known : p.registries[r]? = some registry) {held : ClassId → Bool} {id found : ClassId}
    (asked : (Hierarchy.superType ⟨registry, held⟩ p.store id).1 = some found) :
    ∃ d name, p.store.descriptor? id = some d ∧ d.superName = some name ∧
      Registered acts r registry.generation name found := by
  obtain ⟨d, name, described, named, now | ⟨-, link, -⟩⟩ := Hierarchy.superType_eq_some asked
  · exact ⟨d, name, described, named, p, registry, Moment.last ran, known, rfl, now⟩
  · obtain ⟨d, name, r', described, named, q, before, moment, there, generation, once⟩ :=
      link?_founded ran link
    -- The generation is still the one of the registry that was asked then.
    have serves : q.generation? r' = some registry.generation := generation ▸ generation?_of_registry there
    cases owner_unique moment (Moment.last ran) serves (generation?_of_registry known)
    exact ⟨d, name, described, named, q, before, moment, there, generation, once⟩

/-! ### Isolation -/

theorem last_rebinding_owned {id : ClassId} {h : Handle}
    (last : Act.Last (Act.rebinding? id) acts (some h)) :
    h.table = ⟨h.generation⟩ ∧ ∃ q, Moment acts q ∧ q.generation? h.registry = some h.generation := by
  obtain ⟨before, a, after, p, rfl, ran, binds, -⟩ := last
  obtain ⟨table, q, ⟨early, within, ran'⟩, serves⟩ := handle_owned ran (Act.mem_handles_of_rebinding binds)
  exact ⟨table, q, ⟨early, within.trans (List.prefix_append before _), ran'⟩, serves⟩

theorem isBoundTo_iff_last (ran : run acts = some p) {handle : Handle} (given : handle ∈ p.handles)
    (id : ClassId) :
    p.store.isBoundTo id handle.table = true ↔ ∃ h : Handle, Act.Last (Act.rebinding? id) acts (some h) ∧
      h.registry = handle.registry ∧ h.generation = handle.generation := by
  obtain ⟨table, q, moment, serves⟩ := handle_owned ran given
  rw [ClassStore.isBoundTo, decide_eq_true_eq, bound?_eq_some_iff_last ran, table]
  constructor
  · rintro ⟨h, last, same⟩
    obtain ⟨own, q', moment', serves'⟩ := last_rebinding_owned last
    have generation : h.generation = handle.generation := congrArg TypeTable.generation (own.symm.trans same)
    exact ⟨h, last, owner_unique moment' moment serves' (generation ▸ serves), generation⟩
  · rintro ⟨h, last, -, generation⟩
    obtain ⟨own, -⟩ := last_rebinding_owned last
    exact ⟨h, last, own.trans (congrArg TypeTable.mk generation)⟩

/-- Builds that share their classes are isolated from each other.  The registries of a process are in
    generations of their own, and a new generation of a registry is above its last.  A class is bound to a
    type table exactly if it was bound last, and not unbound since, with a table of the same registry and
    generation.  A supertype that is found in a registry was registered there under its name, at some moment
    of the generation that the registry is in. -/
theorem builds_are_isolated (ran : run acts = some p) :
    (∀ (r : Nat) (registry : Registry), p.registries[r]? = some registry → 0 < registry.generation ∧
        registry.generation < (p.store.startGeneration registry).1.generation ∧
        ∀ (r' : Nat) (registry' : Registry), p.registries[r']? = some registry' →
          registry'.generation = registry.generation → r' = r) ∧
      (∀ handle ∈ p.handles, ∀ id, p.store.isBoundTo id handle.table = true ↔
        ∃ h : Handle, Act.Last (Act.rebinding? id) acts (some h) ∧ h.registry = handle.registry ∧
          h.generation = handle.generation) ∧
      ∀ (r : Nat) (registry : Registry) held id found, p.registries[r]? = some registry →
        (Hierarchy.superType ⟨registry, held⟩ p.store id).1 = some found →
        ∃ d name, p.store.descriptor? id = some d ∧ d.superName = some name ∧
          Registered acts r registry.generation name found := by
  have fresh := fresh_run ran
  refine ⟨fun r registry known => ?_, fun handle given id => isBoundTo_iff_last ran given id,
    fun r registry held id found known asked => superType_registered ran known asked⟩
  have serves := generation?_of_registry known
  refine ⟨(fresh.given r _ serves).1, ?_, fun r' registry' known' same => ?_⟩
  · rw [ClassStore.generation_startGeneration]
    exact (fresh.given r _ serves).2
  · exact fresh.distinct r' r _ (generation?_of_registry known') (same ▸ serves)

/-- Two registries share a class and bind it in turn.  Then the first starts a new generation, in which the
    class is asked for its supertype and bound once more. -/
def sharing : List Act :=
  [.newRegistry, .newRegistry, .newClass { name := "z:Base" },
   .newClass { name := "A", superName := some "z:Base" },
   .freeze 3, .register 0 "z:Base" 2, .register 0 "A" 3, .register 1 "A" 3, .superType 0 (fun _ => true) 3,
   .typeTable 0, .bind 0 3, .typeTable 1, .bind 1 3, .clean 0, .typeTable 0, .superType 0 (fun _ => true) 3,
   .bind 2 3]

theorem builds_are_isolated_sharing : ∃ p, run sharing = some p ∧
    (∃ handle ∈ p.handles, p.store.isBoundTo 3 handle.table = true ∧
      ∃ h : Handle, Act.Last (Act.rebinding? 3) sharing (some h) ∧ h.registry = handle.registry ∧
        h.generation = handle.generation) ∧
    ∃ (registry : Registry) (found : ClassId), p.registries[0]? = some registry ∧
      (Hierarchy.superType ⟨registry, fun _ => true⟩ p.store 3).1 = some found ∧
      ∃ d name, p.store.descriptor? 3 = some d ∧ d.superName = some name ∧
        Registered sharing 0 registry.generation name found := by
  have ends : (run sharing).any (fun p => p.handles.any (fun handle => p.store.isBoundTo 3 handle.table) &&
      p.registries[0]?.any fun registry =>
        (Hierarchy.superType ⟨registry, fun _ => true⟩ p.store 3).1.isSome) = true := by decide +kernel
  obtain ⟨p, ran, holds⟩ := (Option.any_eq_true ..).1 ends
  obtain ⟨bound, asked⟩ := Bool.and_eq_true_iff.1 holds
  obtain ⟨handle, given, bound⟩ := List.any_eq_true.1 bound
  obtain ⟨registry, known, asked⟩ := (Option.any_eq_true ..).1 asked
  obtain ⟨found, asked⟩ := Option.isSome_iff_exists.1 asked
  obtain ⟨-, bindings, supertypes⟩ := builds_are_isolated ran
  exact ⟨p, ran, ⟨handle, given, bound, (bindings handle given 3).1 bound⟩, registry, found, known, asked,
    supertypes 0 registry (fun _ => true) 3 found known asked⟩

end Process

end AbcBuild
