/-
Module: AbcBuild.Proofs.Lineage
Purpose: The supertypes of a class, one after the other.  A question for a supertype changes no later answer,
  so the line is told by the store as it was before the first question; and it ends, on cycles too, since no
  name comes twice in it.
Main exports: Hierarchy.superType_eq, Hierarchy.superType_again, Hierarchy.climbs_ancestors,
  Hierarchy.exists_climbs
-/
import AbcBuild.Proofs.Records
import Mathlib.Data.List.Range
import Mathlib.Data.List.Perm.Subperm

namespace AbcBuild.Hierarchy

variable {view : View} {store store' store'' : ClassStore}

/-! ### Questions change no answer -/

/-- The supertype that a class remembers, if it may still be used. -/
def recalled? (view : View) (store : ClassStore) (id : ClassId) : Option ClassId :=
  (store.get? id).bind (remembered? view)

theorem recalled?_eq_some_iff {id found : ClassId} : recalled? view store id = some found ↔
    store.isFrozen id = true ∧ store.link? id = some (view.registry.generation, found) ∧
      view.held found = true := by
  unfold recalled? ClassStore.isFrozen ClassStore.link?
  cases store.get? id with
  | none => simp
  | some record => exact remembered?_eq_some_iff

/-- A class answers what it remembers, or else the class that has the name. -/
theorem superType_eq (view : View) (store : ClassStore) (id : ClassId) : (superType view store id).1 =
    (store.descriptor? id).bind fun d =>
      d.superName.bind fun name => (recalled? view store id).or (view.registry.class? name) := by
  cases there : store.get? id with
  | none => simp [superType, ClassStore.descriptor?, there]
  | some record => simp [superType_fst view there, ClassStore.descriptor?, recalled?, there]

/-- What a frozen class remembers from a question is what it answered, so it answers the same again. -/
theorem superType_again (view : View) (store : ClassStore) (asked id : ClassId) :
    (superType view (superType view store asked).2 id).1 = (superType view store id).1 := by
  have unlinked := unlinked_superType view store asked
  have descriptor := ClassStore.descriptor?_of_unlinked unlinked id
  have frozen := ClassStore.isFrozen_of_unlinked unlinked id
  have link := link?_superType view store asked id
  have same (kept : (superType view store asked).2.link? id = store.link? id) :
      (superType view (superType view store asked).2 id).1 = (superType view store id).1 := by
    have recalled : recalled? view (superType view store asked).2 id = recalled? view store id := by
      refine Option.ext fun found => ?_
      rw [recalled?_eq_some_iff, recalled?_eq_some_iff, frozen, kept]
    rw [superType_eq, superType_eq, descriptor, recalled]
  by_cases here : asked = id ∧ store.isFrozen asked = true
  · rw [if_pos here] at link
    obtain ⟨rfl, hfrozen⟩ := here
    cases answer : (superType view store asked).1 with
    | none => exact answer ▸ same (by rw [link, answer]; rfl)
    | some found =>
      replace link : (superType view store asked).2.link? asked
        = some (view.registry.generation, found) := by
        rw [link, answer]
        rfl
      rw [superType_eq] at answer
      obtain ⟨d, described, answer⟩ := Option.bind_eq_some_iff.1 answer
      obtain ⟨name, named, answer⟩ := Option.bind_eq_some_iff.1 answer
      rw [superType_eq, descriptor, described, Option.bind_some, named, Option.bind_some]
      by_cases held : view.held found = true
      · rw [recalled?_eq_some_iff.2 ⟨frozen.trans hfrozen, link, held⟩]
        rfl
      · -- nobody holds the class any more, so both answers are looked up
        have forgotten : recalled? view (superType view store asked).2 asked = none := by
          refine Option.eq_none_iff_forall_ne_some.2 fun other recalled => ?_
          obtain ⟨-, last, stays⟩ := recalled?_eq_some_iff.1 recalled
          rw [link] at last
          cases last
          exact held stays
        rw [forgotten, Option.none_or]
        rcases Option.or_eq_some_iff.1 answer with recalled | ⟨-, looked⟩
        · exact absurd (recalled?_eq_some_iff.1 recalled).2.2 held
        · exact looked
  · exact same (by rw [link, if_neg here])

/-- Two stores hold the same classes and answer each question for a supertype alike. -/
structure Alike (view : View) (store store' : ClassStore) : Prop where
  unlinked : store'.unlinked = store.unlinked
  super : ∀ id, (superType view store' id).1 = (superType view store id).1

namespace Alike

theorem trans (first : Alike view store store') (second : Alike view store' store'') :
    Alike view store store'' :=
  ⟨second.unlinked.trans first.unlinked, fun id => (second.super id).trans (first.super id)⟩

theorem superType (view : View) (store : ClassStore) (id : ClassId) :
    Alike view store (Hierarchy.superType view store id).2 :=
  ⟨unlinked_superType view store id, superType_again view store id⟩

theorem length_records (h : Alike view store store') : store'.records.length = store.records.length := by
  have told (s : ClassStore) : s.unlinked.records.length = s.records.length := List.length_map _
  rw [← told store', h.unlinked, told store]

end Alike

/-! ### The line of supertypes -/

/-- The classes from `next` upwards, one supertype after the other: up to a class without a supertype that
    can be found, or to the first whose name was seen before. -/
inductive Climbs (view : View) (store : ClassStore) : List String → Option ClassId → List ClassId → Prop
  | root {seen} : Climbs view store seen none []
  | missing {seen id} (absent : store.descriptor? id = none) : Climbs view store seen (some id) []
  | again {seen id d} (there : store.descriptor? id = some d) (known : d.name ∈ seen) :
      Climbs view store seen (some id) []
  | up {seen id d above} (there : store.descriptor? id = some d) (new : d.name ∉ seen)
      (rest : Climbs view store (d.name :: seen) (superType view store id).1 above) :
      Climbs view store seen (some id) (id :: above)

/-- Classes that were passed: no two are the same, and their names have been seen. -/
structure Passed (store : ClassStore) (seen : List String) (passed : List ClassId) : Prop where
  distinct : passed.Nodup
  named : ∀ id ∈ passed, ∃ d, store.descriptor? id = some d ∧ d.name ∈ seen

namespace Passed

variable {seen : List String} {passed : List ClassId} {id : ClassId} {d : ClassDescriptor}

theorem nil (store : ClassStore) (seen : List String) : Passed store seen [] := ⟨List.nodup_nil, by simp⟩

/-- A class whose name is new has not been passed. -/
theorem cons (h : Passed store seen passed) (there : store.descriptor? id = some d) (new : d.name ∉ seen) :
    Passed store (d.name :: seen) (id :: passed) where
  distinct := by
    refine List.nodup_cons.2 ⟨fun before => ?_, h.distinct⟩
    obtain ⟨d', there', known⟩ := h.named id before
    rw [there] at there'
    cases there'
    exact new known
  named := by
    intro other member
    rcases List.mem_cons.1 member with rfl | before
    · exact ⟨d, there, (.head _)⟩
    · obtain ⟨d', there', known⟩ := h.named other before
      exact ⟨d', there', .tail _ known⟩

/-- No more classes are passed than there are. -/
theorem length_le (h : Passed store seen passed) : passed.length ≤ store.records.length := by
  have within : passed ⊆ List.range store.records.length := by
    intro id member
    obtain ⟨d, there, -⟩ := h.named id member
    obtain ⟨record, found, -⟩ := Option.map_eq_some_iff.1 there
    exact List.mem_range.2 (List.getElem?_eq_some_iff.1 found).1
  exact (List.subperm_of_subset h.distinct within).length_le.trans_eq List.length_range

end Passed

/-- The bound is never met: each step passes a class that was not passed before. -/
theorem climbs_chainWithin {steps : Nat} {seen : List String} {passed : List ClassId}
    (h : Passed store seen passed) (enough : store.records.length < steps + passed.length)
    (alike : Alike view store store') (next : Option ClassId) :
    Climbs view store seen next (chainWithin view steps seen next store').1 := by
  induction steps generalizing seen passed store' next with
  | zero => exact absurd h.length_le (by omega)
  | succ steps ih =>
    cases next with
    | none => exact .root
    | some id =>
      have described := ClassStore.descriptor?_of_unlinked alike.unlinked id
      rw [chainWithin, described]
      cases there : store.descriptor? id with
      | none => exact .missing there
      | some d =>
        dsimp only
        split
        next known => exact .again there (List.contains_iff_mem.1 known)
        next new =>
          have new : d.name ∉ seen := fun known => new (List.contains_iff_mem.2 known)
          refine .up there new ?_
          rw [← alike.super id]
          exact ih (h.cons there new) (by rw [List.length_cons]; omega)
            (alike.trans (.superType view store' id)) _

/-- A class and its ancestors are the line that starts at the class. -/
theorem climbs_ancestors (view : View) {id : ClassId} {d : ClassDescriptor}
    (there : store.descriptor? id = some d) :
    Climbs view store [] (some id) (id :: (ancestors view store id).1) := by
  have alike := Alike.superType view store id
  have enough : store.records.length < (superType view store id).2.records.length + 1 + [id].length := by
    rw [alike.length_records, List.length_singleton]
    omega
  refine .up there List.not_mem_nil ?_
  rw [ancestors, there]
  exact climbs_chainWithin ((Passed.nil store []).cons there List.not_mem_nil) enough alike _

theorem lineage_fst (view : View) (store : ClassStore) (id : ClassId) :
    (lineage view store id).1 = (id :: (ancestors view store id).1).filterMap store.descriptor? := by
  rw [← descriptor?_ancestors view store id]
  rfl

/-- The line that starts at a class: empty if there is no such class, else the class and its ancestors. -/
theorem exists_climbs (view : View) (store : ClassStore) (id : ClassId) :
    ∃ line, Climbs view store [] (some id) line ∧
    line.tail = (ancestors view store id).1 ∧
      line.filterMap store.descriptor? = (lineage view store id).1 := by
  cases there : store.descriptor? id with
  | none =>
    have alone : (ancestors view store id).1 = [] := by rw [ancestors, there]
    refine ⟨[], .missing there, alone.symm, ?_⟩
    rw [lineage_fst, alone, List.filterMap_cons_none there]
  | some d => exact ⟨_, climbs_ancestors view there, rfl, (lineage_fst view store id).symm⟩

end AbcBuild.Hierarchy
