/-
Module: AbcBuild.Proofs.Interfaces
Purpose: The search for an interface.  It takes names from a stack and puts back what they list; it ends on
  every table of classes, since a name is expanded once; and it finds what a chain of listed names leads to,
  from a class or one of its ancestors.
Main exports: Hierarchy.Lists, Hierarchy.Searches, Hierarchy.Searches.answer_iff,
  Hierarchy.implementsInterface_iff_listed
-/
import AbcBuild.Proofs.Lineage
import AbcBuild.Proofs.Table
import Mathlib.Algebra.BigOperators.Group.List.Basic
import Mathlib.Logic.Relation

namespace AbcBuild.Hierarchy

open Relation (ReflTransGen)

variable {view : View} {store store' : ClassStore} {wanted : String}

/-! ### Listed interfaces -/

/-- The class that is registered under `name` lists `listed` as an interface. -/
def Lists (view : View) (store : ClassStore) (name listed : String) : Prop :=
  ∃ id d, view.registry.class? name = some id ∧ store.descriptor? id = some d ∧ listed ∈ d.interfaces

theorem mem_listedBy {name listed : String} :
    listed ∈ listedBy view store name ↔ Lists view store name listed := by
  unfold listedBy Lists
  cases view.registry.class? name with
  | none => simp
  | some id => cases there : store.descriptor? id <;> simp [there]

/-- A name that lists something is registered, or the name of the untyped class. -/
theorem registered_of_listedBy_ne_nil {name : String} (h : listedBy view store name ≠ []) :
    name ∈ ClassDescriptor.untypedName :: view.registry.classes.keys := by
  obtain ⟨listed, member⟩ := List.exists_mem_of_ne_nil _ h
  obtain ⟨id, d, found, -, -⟩ := mem_listedBy.1 member
  rw [Registry.class?] at found
  split at found
  next untyped => exact List.mem_cons.2 (.inl untyped)
  next => exact .tail _ ((Table.isSome_get? _ _).1 (by rw [found]; rfl))

theorem listedBy_of_unlinked (h : store'.unlinked = store.unlinked) :
    listedBy view store' = listedBy view store := by
  have same : store'.descriptor? = store.descriptor? := funext (ClassStore.descriptor?_of_unlinked h)
  funext name
  rw [listedBy, listedBy, same]

/-! ### The search -/

/-- A search with names seen and names pending comes to an answer, however many steps it takes. -/
inductive Searches (view : View) (store : ClassStore) (wanted : String) :
    List String → List String → Bool → Prop
  | exhausted {seen} : Searches view store wanted seen [] false
  | found {seen pending} : Searches view store wanted seen (wanted :: pending) true
  | again {seen name pending answer} (other : name ≠ wanted) (known : name ∈ seen)
      (rest : Searches view store wanted seen pending answer) :
      Searches view store wanted seen (name :: pending) answer
  | expand {seen name pending answer} (other : name ≠ wanted) (new : name ∉ seen)
      (rest : Searches view store wanted (name :: seen) ((listedBy view store name).reverse ++ pending)
        answer) :
      Searches view store wanted seen (name :: pending) answer

/-- How many names the classes under the given names list, all in all. -/
def listings (view : View) (store : ClassStore) (names : List String) : Nat :=
  names.foldr (fun name n => (listedBy view store name).length + n) 0

theorem listings_erase (view : View) (store : ClassStore) {name : String} {names : List String}
    (member : name ∈ names) :
    (listedBy view store name).length + listings view store (names.erase name)
    = listings view store names := by
  have told (names : List String) :
      listings view store names = (names.map fun name => (listedBy view store name).length).sum := by
    rw [List.sum_eq_foldr, List.foldr_map]
    rfl
  rw [told, told]
  exact List.sum_map_erase (fun name => (listedBy view store name).length) member

/-- A name that a search has not seen and that lists something is in `left`. -/
def Unread (view : View) (store : ClassStore) (seen left : List String) : Prop :=
  ∀ name, name ∉ seen → listedBy view store name ≠ [] → name ∈ left

namespace Unread

variable {seen left : List String} {name : String}

theorem erase (h : Unread view store seen left) (name : String) :
    Unread view store (name :: seen) (left.erase name) := by
  intro other new lists
  have apart : other ≠ name := fun same => new (same ▸ (.head _))
  have unseen : other ∉ seen := fun known => new (.tail _ known)
  exact (List.mem_erase_of_ne apart).2 (h other unseen lists)

/-- What a new name lists is paid for by its leaving. -/
theorem listings_le (h : Unread view store seen left) (new : name ∉ seen) :
    (listedBy view store name).length + listings view store (left.erase name) ≤ listings view
    store left := by
  by_cases waits : name ∈ left
  · exact (listings_erase view store waits).le
  · have none : listedBy view store name = [] := by_contra fun lists => waits (h name new lists)
    rw [List.erase_of_not_mem waits, none, List.length_nil, Nat.zero_add]

end Unread

/-- The bound is never met: each step takes a name from the stack, and a name is expanded once. -/
theorem searches_reachesWithin {steps : Nat} {seen pending left : List String}
    (unread : Unread view store seen left) (enough : pending.length + listings view store left < steps) :
    Searches view store wanted seen pending (reachesWithin view store wanted steps seen pending) := by
  induction steps generalizing seen pending left with
  | zero => omega
  | succ steps ih =>
    cases pending with
    | nil => exact .exhausted
    | cons name pending =>
      rw [List.length_cons] at enough
      rw [reachesWithin]
      split
      next here => exact here ▸ .found
      next other =>
        split
        next known => exact .again other (List.contains_iff_mem.1 known) (ih unread (by omega))
        next new =>
          have new : name ∉ seen := fun known => new (List.contains_iff_mem.2 known)
          have paid := unread.listings_le new
          refine .expand other new (ih (unread.erase name) ?_)
          rw [List.length_append, List.length_reverse]
          omega

/-- The bound of a search that starts with nothing seen is enough. -/
theorem searches_searchBound (view : View) (store : ClassStore) (wanted : String) (start : List String) :
    Searches view store wanted [] start
      (reachesWithin view store wanted (searchBound view store start) [] start) := by
  refine searches_reachesWithin (fun name _ lists => registered_of_listedBy_ne_nil lists) ?_
  have cost : listings view store (ClassDescriptor.untypedName :: view.registry.classes.keys) =
      (listedBy view store ClassDescriptor.untypedName).length + listings view store
        view.registry.classes.keys := rfl
  have bound : searchBound view store start = start.length + listings view store view.registry.classes.keys
      + (listedBy view store ClassDescriptor.untypedName).length + 1 := rfl
  omega

/-- Between steps: what is wanted has not been seen, and what the names seen list has been seen or is
    pending. -/
structure Frontier (view : View) (store : ClassStore) (wanted : String) (seen pending : List String) :
    Prop where
  apart : wanted ∉ seen
  next : ∀ name ∈ seen, ∀ listed, Lists view store name listed → listed ∈ seen ∨ listed ∈ pending

namespace Frontier

variable {seen pending : List String} {name : String}

theorem skip (h : Frontier view store wanted seen (name :: pending)) (known : name ∈ seen) :
    Frontier view store wanted seen pending where
  apart := h.apart
  next := by
    intro other member listed lists
    rcases h.next other member listed lists with before | waits
    · exact .inl before
    · rcases List.mem_cons.1 waits with rfl | waits
      · exact .inl known
      · exact .inr waits

theorem expand (h : Frontier view store wanted seen (name :: pending)) (other : name ≠ wanted) :
    Frontier view store wanted (name :: seen) ((listedBy view store name).reverse ++ pending) where
  apart := by
    rintro (_ | ⟨_, known⟩)
    · exact other rfl
    · exact h.apart known
  next := by
    intro name' member listed lists
    rcases List.mem_cons.1 member with rfl | before
    · exact .inr (List.mem_append_left _ (List.mem_reverse.2 (mem_listedBy.2 lists)))
    · rcases h.next name' before listed lists with known | waits
      · exact .inl (.tail _ known)
      · rcases List.mem_cons.1 waits with rfl | waits
        · exact .inl (.head _)
        · exact .inr (List.mem_append_right _ waits)

/-- Once nothing is pending, the names seen hold all that they lead to. -/
theorem mem_of_leads (h : Frontier view store wanted seen []) {target : String}
    (leads : ReflTransGen (Lists view store) name target) (member : name ∈ seen) : target ∈ seen := by
  induction leads with
  | refl => exact member
  | tail _ lists ih => exact (h.next _ ih _ lists).resolve_right List.not_mem_nil

end Frontier

namespace Searches

variable {seen pending : List String} {answer : Bool}

/-- What classes remember is nothing to a search. -/
theorem of_unlinked (same : store'.unlinked = store.unlinked)
    (h : Searches view store' wanted seen pending answer) :
    Searches view store wanted seen pending answer := by
  induction h with
  | exhausted => exact .exhausted
  | found => exact .found
  | again other known _ ih => exact .again other known ih
  | expand other new _ ih => exact .expand other new (listedBy_of_unlinked same ▸ ih)

/-- What is found is listed, at some depth, by a pending name. -/
theorem sound (h : Searches view store wanted seen pending answer) (yes : answer = true) :
    ∃ name ∈ pending, ReflTransGen (Lists view store) name wanted := by
  induction h with
  | exhausted => cases yes
  | found => exact ⟨wanted, (.head _), .refl⟩
  | again _ _ _ ih =>
    obtain ⟨name, member, leads⟩ := ih yes
    exact ⟨name, .tail _ member, leads⟩
  | expand _ _ _ ih =>
    obtain ⟨name, member, leads⟩ := ih yes
    rcases List.mem_append.1 member with listed | waits
    · exact ⟨_, (.head _), .head (mem_listedBy.1 (List.mem_reverse.1 listed)) leads⟩
    · exact ⟨name, .tail _ waits, leads⟩

/-- A search that finds nothing ends up with names that hold the pending ones and all that they list, and not
    the one that was wanted. -/
theorem complete (h : Searches view store wanted seen pending answer) (no : answer = false)
    (frontier : Frontier view store wanted seen pending) :
    ∃ all, Frontier view store wanted all [] ∧ seen ⊆ all ∧ pending ⊆ all := by
  induction h with
  | exhausted => exact ⟨_, frontier, List.Subset.refl _, List.nil_subset _⟩
  | found => cases no
  | again _ known _ ih =>
    obtain ⟨all, closed, holds, reads⟩ := ih no (frontier.skip known)
    exact ⟨all, closed, holds, List.cons_subset.2 ⟨holds known, reads⟩⟩
  | expand other _ _ ih =>
    obtain ⟨all, closed, holds, reads⟩ := ih no (frontier.expand other)
    obtain ⟨here, before⟩ := List.cons_subset.1 holds
    have waiting := List.Subset.trans (List.subset_append_right _ _) reads
    exact ⟨all, closed, before, List.cons_subset.2 ⟨here, waiting⟩⟩

/-- A search finds what the names that it starts with lead to. -/
theorem answer_iff (h : Searches view store wanted [] pending answer) :
    answer = true ↔ ∃ name ∈ pending, ReflTransGen (Lists view store) name wanted := by
  refine ⟨h.sound, ?_⟩
  rintro ⟨name, member, leads⟩
  by_contra no
  have nothing : Frontier view store wanted [] pending := ⟨List.not_mem_nil, by simp⟩
  obtain ⟨all, closed, -, reads⟩ := h.complete (Bool.eq_false_iff.2 no) nothing
  exact closed.apart (closed.mem_of_leads leads (reads member))

end Searches

/-! ### The interfaces of a class -/

theorem searches_implementsInterface (view : View) (store : ClassStore) (id : ClassId) (wanted : String) :
    Searches view store wanted [] ((lineage view store id).1.flatMap ClassDescriptor.interfaces).reverse
      (implementsInterface view store id wanted).1 :=
  Searches.of_unlinked (unlinked_ancestors view store id)
    (searches_searchBound view (lineage view store id).2 wanted _)

/-- A class implements the interfaces that a chain of listed names leads to, from a name that the class or
    one of its ancestors lists.  The line of ancestors and the search both end, whatever cycles there are;
    what is wanted need not be registered.  The line goes up by `superType`, which answers what
    `superType_eq` says: the class that is remembered, if it may still be used, and else the one that is
    registered under the name of the supertype. -/
theorem implementsInterface_iff_listed (view : View) (store : ClassStore) (id : ClassId) (wanted : String) :
    ∃ line, Climbs view store [] (some id) line ∧ line.tail = (ancestors view store id).1 ∧
      Searches view store wanted []
        ((line.filterMap store.descriptor?).flatMap ClassDescriptor.interfaces).reverse
        (implementsInterface view store id wanted).1 ∧
      ((implementsInterface view store id wanted).1 = true ↔
        ∃ c ∈ line, ∃ d, store.descriptor? c = some d ∧
          ∃ name ∈ d.interfaces, ReflTransGen (Lists view store) name wanted) := by
  obtain ⟨line, climbs, above, family⟩ := exists_climbs view store id
  have searches := searches_implementsInterface view store id wanted
  rw [← family] at searches
  refine ⟨line, climbs, above, searches, searches.answer_iff.trans ?_⟩
  simp only [List.mem_reverse, List.mem_flatMap, List.mem_filterMap]
  constructor
  · rintro ⟨name, ⟨d, ⟨c, member, there⟩, lists⟩, leads⟩
    exact ⟨c, member, d, there, name, lists, leads⟩
  · rintro ⟨c, member, d, there, name, lists, leads⟩
    exact ⟨name, ⟨d, ⟨c, member, there⟩, lists⟩, leads⟩

/-- Two classes that are supertypes of each other, and two interfaces that list each other. -/
def ringStore : ClassStore where
  records := [⟨{ name := "Egg", superName := some "Hen" }, true, none, none⟩,
    ⟨{ name := "Hen", superName := some "Egg", interfaces := ["Laying"] }, true, none, none⟩,
    ⟨{ name := "Laying", interfaces := ["Hatching"] }, true, none, none⟩,
    ⟨{ name := "Hatching", interfaces := ["Living", "Laying"] }, true, none, none⟩]

def ringView : View where
  registry :=
    { untyped := 4, classes := ⟨[("Egg", 0), ("Hen", 1), ("Laying", 2), ("Hatching", 3)]⟩, generation := 1 }
  held := fun _ => true

/-- The line goes up from the first class to the second and ends where it comes round.  The second lists an
    interface that leads on to one that is not registered. -/
theorem implementsInterface_iff_listed_ring :
    Climbs ringView ringStore [] (some 0) [0, 1] ∧ (ancestors ringView ringStore 0).1 = [1] ∧
      (implementsInterface ringView ringStore 0 "Living").1 = true ∧
      (∃ c ∈ [0, 1], ∃ d, ringStore.descriptor? c = some d ∧
        ∃ name ∈ d.interfaces, ReflTransGen (Lists ringView ringStore) name "Living") ∧
      (implementsInterface ringView ringStore 0 "Egg").1 = false := by
  obtain ⟨line, climbs, above, -, listed⟩ := implementsInterface_iff_listed ringView ringStore 0 "Living"
  have up : (ancestors ringView ringStore 0).1 = [1] := by decide +kernel
  have found : (implementsInterface ringView ringStore 0 "Living").1 = true := by decide +kernel
  obtain rfl : line = [0, 1] := by
    cases climbs with
    | missing absent => cases absent
    | again _ known => cases known
    | up _ _ _ => rw [← up, ← above, List.tail_cons]
  exact ⟨climbs, up, found, listed.1 found, by decide +kernel⟩

end AbcBuild.Hierarchy
