/-
Module: AbcBuild.Proofs.Records
Purpose: What the operations of the store do to the records of classes, and what a question for a supertype
  leaves in them.
Main exports: ClassStore.isFrozen, ClassStore.link?, Hierarchy.link?_superType,
  Hierarchy.unlinked_inheritedTags
-/
import AbcBuild.Class.Hierarchy

namespace AbcBuild

namespace ClassStore

variable {s s' : ClassStore} {β : Type}

/-- The class at this place is published for good. -/
def isFrozen (s : ClassStore) (id : ClassId) : Bool := (s.get? id).any ClassRecord.frozen

/-- The supertype that a class remembers, with the generation that it was found in. -/
def link? (s : ClassStore) (id : ClassId) : Option (Generation × ClassId) :=
  (s.get? id).bind ClassRecord.superLink

section

variable (s : ClassStore) (d : ClassDescriptor) (r : Registry) (ids : List ClassId) (id other : ClassId)

@[simp] theorem get?_modify (change : ClassRecord → ClassRecord) :
    (s.modify id change).get? other = if id = other then (s.get? other).map change else s.get? other := by
  simp only [get?, modify, List.getElem?_modify]
  split <;> simp

/-- A new record stands after all others. -/
theorem get?_add :
    (s.add d).2.get? id = if id = s.records.length then some { descriptor := d } else s.get? id := by
  simp only [get?, add, List.getElem?_append]
  split
  next below => rw [if_neg (Nat.ne_of_lt below)]
  next beyond =>
    have absent : s.records[id]? = none := List.getElem?_eq_none (Nat.le_of_not_lt beyond)
    by_cases new : id = s.records.length
    · simp [new]
    · have past : 1 ≤ id - s.records.length :=
        Nat.sub_pos_of_lt (Nat.lt_of_le_of_ne (Nat.le_of_not_lt beyond) (Ne.symm new))
      rw [if_neg new, absent, List.getElem?_eq_none past]

/-- A change that leaves a field alone. -/
theorem field_modify (field : ClassRecord → Option β) (change : ClassRecord → ClassRecord)
    (same : ∀ r, field (change r) = field r) (s : ClassStore) (id other : ClassId) :
    ((s.modify id change).get? other).bind field = (s.get? other).bind field := by
  rw [get?_modify]
  split
  · cases s.get? other <;> simp [same]
  · rfl

/-- A field that a new record does not have. -/
theorem field_add (field : ClassRecord → Option β) {d : ClassDescriptor}
    (unset : field { descriptor := d } = none) (s : ClassStore) (id : ClassId) :
    ((s.add d).2.get? id).bind field = (s.get? id).bind field := by
  rw [get?_add]
  split
  next new =>
    have absent : s.get? id = none := List.getElem?_eq_none (Nat.le_of_eq new.symm)
    rw [absent]
    exact unset
  next => rfl

/-! ### Bindings -/

@[simp] theorem bound?_freeze : (s.freeze id).bound? other = s.bound? other :=
  s.field_modify ClassRecord.binding (fun r => { r with frozen := true }) (fun _ => rfl) id other

@[simp] theorem bound?_add : (s.add d).2.bound? id = s.bound? id :=
  s.field_add ClassRecord.binding rfl id

/-- A class is bound to the table that it was bound to last. -/
theorem bound?_bind {s : ClassStore} {id : ClassId} (there : id < s.records.length) (table : TypeTable)
    (other : ClassId) : (s.bind id table).bound? other = if id
    = other then some table else s.bound? other := by
  unfold bound? bind
  rw [get?_modify]
  split
  next here =>
    obtain ⟨record, held⟩ : ∃ record, s.get? other = some record :=
      ⟨_, List.getElem?_eq_getElem (here ▸ there)⟩
    rw [held]
    rfl
  next => rfl

@[simp] theorem bound?_unbind :
    (s.unbind id).bound? other = if id = other then none else s.bound? other := by
  unfold bound? unbind
  rw [get?_modify]
  split
  · cases s.get? other <;> rfl
  · rfl

/-- Once a list of classes has been unbound, those have no table and all others keep theirs. -/
@[simp] theorem bound?_unbindAll :
    (ids.foldl unbind s).bound? id = if id ∈ ids then none else s.bound? id := by
  induction ids generalizing s with
  | nil => simp
  | cons first rest ih =>
    rw [List.foldl_cons, ih, bound?_unbind]
    by_cases here : first = id
    · simp [here]
    · have other : id ≠ first := fun same => here same.symm
      simp [here, other]

@[simp] theorem bound?_newRegistry : s.newRegistry.2.bound? id = s.bound? id :=
  (bound?_freeze _ _ id).trans (s.bound?_add _ id)

/-- A new generation begins with the classes of its registry unbound. -/
@[simp] theorem bound?_startGeneration :
    (s.startGeneration r).2.bound? id = if id ∈ r.classes.values then none else s.bound? id :=
  s.bound?_unbindAll r.classes.values id

/-! ### Generations -/

@[simp] theorem nextGeneration_unbindAll : (ids.foldl unbind s).nextGeneration = s.nextGeneration := by
  induction ids generalizing s with
  | nil => rfl
  | cons first rest ih => exact ih (s.unbind first)

@[simp] theorem generation_startGeneration : (s.startGeneration r).1.generation = s.nextGeneration :=
  s.nextGeneration_unbindAll r.classes.values

@[simp] theorem nextGeneration_startGeneration :
    (s.startGeneration r).2.nextGeneration = s.nextGeneration + 1 :=
  congrArg (· + 1) (s.nextGeneration_unbindAll r.classes.values)

/-! ### Remembered supertypes -/

@[simp] theorem link?_freeze : (s.freeze id).link? other = s.link? other :=
  s.field_modify ClassRecord.superLink (fun r => { r with frozen := true }) (fun _ => rfl) id other

@[simp] theorem link?_add : (s.add d).2.link? id = s.link? id :=
  s.field_add ClassRecord.superLink rfl id

@[simp] theorem link?_bind (table : TypeTable) : (s.bind id table).link? other = s.link? other :=
  s.field_modify ClassRecord.superLink (fun r => { r with binding := some table }) (fun _ => rfl) id other

@[simp] theorem link?_unbind : (s.unbind id).link? other = s.link? other :=
  s.field_modify ClassRecord.superLink (fun r => { r with binding := none }) (fun _ => rfl) id other

@[simp] theorem link?_newRegistry : s.newRegistry.2.link? id = s.link? id :=
  (link?_freeze _ _ id).trans (s.link?_add _ id)

@[simp] theorem link?_startGeneration : (s.startGeneration r).2.link? id = s.link? id := by
  have unbound : ∀ (ids : List ClassId) (s : ClassStore), (ids.foldl unbind s).link? id = s.link? id := by
    intro ids
    induction ids with
    | nil => exact fun s => rfl
    | cons first rest ih => exact fun s => (ih _).trans (s.link?_unbind first id)
  exact unbound r.classes.values s

/-! ### All but the remembered supertypes -/

/-- The store without what classes remember. -/
def unlinked (s : ClassStore) : ClassStore :=
  { s with records := s.records.map fun r => { r with superLink := none } }

@[simp] theorem get?_unlinked : s.unlinked.get? id = (s.get? id).map fun r => { r with superLink := none } :=
  List.getElem?_map ..

/-- To remember a supertype changes nothing else in a store. -/
theorem unlinked_remember (link : Option (Generation × ClassId)) :
    (s.modify id fun r => { r with superLink := link }).unlinked = s.unlinked := by
  unfold unlinked modify
  congr 1
  refine List.ext_getElem? fun i => ?_
  rw [List.getElem?_map, List.getElem?_map, List.getElem?_modify]
  cases s.records[i]? with
  | none => rfl
  | some r => by_cases here : id = i <;> simp [here]

end

section

variable (h : s'.unlinked = s.unlinked)
include h

theorem nextGeneration_of_unlinked : s'.nextGeneration = s.nextGeneration := by
  have same : s'.unlinked.nextGeneration = s.unlinked.nextGeneration := by rw [h]
  exact same

theorem descriptor?_of_unlinked (id : ClassId) : s'.descriptor? id = s.descriptor? id := by
  have told (s : ClassStore) : s.unlinked.descriptor? id = s.descriptor? id := by
    rw [descriptor?, get?_unlinked, Option.map_map]
    rfl
  rw [← told s', h, told s]

theorem isFrozen_of_unlinked (id : ClassId) : s'.isFrozen id = s.isFrozen id := by
  have told (s : ClassStore) : s.unlinked.isFrozen id = s.isFrozen id := by
    rw [isFrozen, get?_unlinked, Option.any_map]
    rfl
  rw [← told s', h, told s]

theorem bound?_of_unlinked (id : ClassId) : s'.bound? id = s.bound? id := by
  have told (s : ClassStore) : s.unlinked.bound? id = s.bound? id := by
    rw [bound?, get?_unlinked, Option.bind_map]
    rfl
  rw [← told s', h, told s]

end

end ClassStore

namespace Registry

variable {r : Registry}

/-- The type table that a registry keeps is the one of its generation. -/
def Current (r : Registry) : Prop := ∀ table, r.typeTable = some table → table = ⟨r.generation⟩

@[simp] theorem generation_currentTable (r : Registry) : r.currentTable.2.generation = r.generation := by
  unfold currentTable
  split <;> rfl

/-- A registry that keeps no table of an earlier generation answers with that of the current one. -/
theorem Current.fst_currentTable (h : r.Current) : r.currentTable.1 = ⟨r.generation⟩ := by
  unfold currentTable
  split
  next table kept => exact h table kept
  next => rfl

theorem Current.currentTable (h : r.Current) : r.currentTable.2.Current := by
  unfold Registry.currentTable
  split
  next => exact h
  next =>
    intro table kept
    cases kept
    rfl

end Registry

namespace Hierarchy

variable {view : View} {store : ClassStore} {id : ClassId} {record : ClassRecord}

/-- What a class remembers may be used if it is frozen, in the generation in which it was found, while it is
    held. -/
theorem remembered?_eq_some_iff {found : ClassId} : remembered? view record = some found ↔
    record.frozen = true ∧ record.superLink = some (view.registry.generation, found) ∧
      view.held found = true := by
  unfold remembered?
  cases record.frozen with
  | false => simp
  | true =>
    cases record.superLink with
    | none => simp
    | some link =>
      obtain ⟨generation, other⟩ := link
      simp only [if_true, Option.ite_none_right_eq_some, Bool.and_eq_true, decide_eq_true_eq,
        Option.some.injEq, Prod.mk.injEq, true_and]
      constructor
      · rintro ⟨⟨rfl, held⟩, rfl⟩
        exact ⟨⟨rfl, rfl⟩, held⟩
      · rintro ⟨⟨rfl, rfl⟩, held⟩
        exact ⟨⟨rfl, held⟩, rfl⟩

/-- The supertype of a class is the one that it remembers, or else the one that has the name. -/
theorem superType_fst (view : View) (there : store.get? id = some record) : (superType view store id).1
    = record.descriptor.superName.bind fun name => (remembered? view record).or
      (view.registry.class? name) := by
  simp only [superType, there]
  cases record.descriptor.superName with
  | none => rfl
  | some name =>
    cases remembered? view record with
    | some found => rfl
    | none =>
      cases looked : view.registry.class? name with
      | none => simp [looked]
      | some found =>
        simp only [Option.bind_some, Option.none_or, looked]
        split <;> rfl

/-- A supertype that is found has the name now, or is remembered and held. -/
theorem superType_eq_some {found : ClassId} (h : (superType view store id).1 = some found) :
    ∃ d name, store.descriptor? id = some d ∧ d.superName = some name ∧
      (view.registry.class? name = some found ∨ store.isFrozen id = true ∧
        store.link? id = some (view.registry.generation, found) ∧ view.held found = true) := by
  cases there : store.get? id with
  | none => simp [superType, there] at h
  | some record =>
    rw [superType_fst view there] at h
    obtain ⟨name, named, found⟩ := Option.bind_eq_some_iff.1 h
    refine ⟨record.descriptor, name, by simp [ClassStore.descriptor?, there], named, ?_⟩
    rcases Option.or_eq_some_iff.1 found with remembers | ⟨-, now⟩
    · obtain ⟨frozen, link, held⟩ := remembered?_eq_some_iff.1 remembers
      refine Or.inr ⟨?_, ?_, held⟩
      · rw [ClassStore.isFrozen, there]
        exact frozen
      · rw [ClassStore.link?, there]
        exact link
    · exact Or.inl now

variable (view store id)

/-- A frozen class remembers what it was told last. -/
theorem link?_superType (other : ClassId) :
    (superType view store id).2.link? other =
      if id = other ∧ store.isFrozen id = true then
        ((superType view store id).1.map (view.registry.generation, ·)).or (store.link? other)
      else store.link? other := by
  cases there : store.get? id with
  | none => simp [superType, there, ClassStore.isFrozen]
  | some record =>
    have frozen : store.isFrozen id = record.frozen := by simp [ClassStore.isFrozen, there]
    have link : store.link? id = record.superLink := by simp [ClassStore.link?, there]
    simp only [superType, there, frozen]
    cases record.descriptor.superName with
    | none => simp
    | some name =>
      cases remembers : remembered? view record with
      | some found =>
        obtain ⟨-, last, -⟩ := remembered?_eq_some_iff.1 remembers
        dsimp only
        split
        next here =>
          rw [← here.1, link, last]
          rfl
        next => rfl
      | none =>
        cases looked : view.registry.class? name with
        | none => simp [looked]
        | some found =>
          cases record.frozen with
          | false => simp [looked]
          | true =>
            simp only [looked, if_true, and_true]
            rw [ClassStore.link?, ClassStore.get?_modify]
            split
            next here =>
              rw [← here, there]
              rfl
            next => rfl

/-! ### Questions change what classes remember, and nothing else -/

/-- A question for the supertype changes only what is remembered. -/
theorem unlinked_superType : (superType view store id).2.unlinked = store.unlinked := by
  unfold superType
  repeat' split
  all_goals first
    | rfl
    | exact store.unlinked_remember id _

/-- So does a walk along the line of supertypes, however far it goes. -/
theorem unlinked_chainWithin (steps : Nat) (seen : List String) (next : Option ClassId) :
    (chainWithin view steps seen next store).2.unlinked = store.unlinked := by
  induction steps generalizing seen next store with
  | zero => rfl
  | succ steps ih =>
    cases next with
    | none => rfl
    | some id =>
      rw [chainWithin]
      split
      · rfl
      · split
        · rfl
        · exact (ih _ _ _).trans (unlinked_superType view store id)

theorem unlinked_ancestors : (ancestors view store id).2.unlinked = store.unlinked := by
  unfold ancestors
  split
  · rfl
  · exact (unlinked_chainWithin view _ _ _ _).trans (unlinked_superType view store id)

@[simp] theorem descriptor?_ancestors : (ancestors view store id).2.descriptor? = store.descriptor? :=
  funext (ClassStore.descriptor?_of_unlinked (unlinked_ancestors view store id))

theorem unlinked_inheritedTags (name : String) (inherited : Bool) :
    (inheritedTags view store id name inherited).2.unlinked = store.unlinked := by
  unfold inheritedTags
  split
  · exact unlinked_ancestors view store id
  · rfl

end Hierarchy

end AbcBuild
