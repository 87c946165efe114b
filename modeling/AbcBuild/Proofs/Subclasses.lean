/-
Module: AbcBuild.Proofs.Subclasses
Purpose: Questions to a table of classes, cyclic hierarchies included.  Where every class is registered under
  its own name and every supertype is looked up in the table, the ancestors of a class are what its supertype
  names lead to.  The line of ancestors stops where a name comes again, and that drops nothing: the name
  leads to a class of the line.
Main exports: Hierarchy.Tabled, Hierarchy.reached?, Hierarchy.Provides, Hierarchy.questions_follow_supertypes
-/
import AbcBuild.Proofs.Lineage
import Mathlib.Logic.Relation

namespace AbcBuild

/-- The name of the class at a place. -/
def ClassStore.name? (s : ClassStore) (id : ClassId) : Option String :=
  (s.descriptor? id).map ClassDescriptor.name

namespace Hierarchy

open Relation (ReflTransGen)

variable {view : View} {store : ClassStore} {name : String} {id c : ClassId}

/-! ### Tables of classes -/

/-- The class that has the supertype name of a class. -/
def above (view : View) (store : ClassStore) (id : ClassId) : Option ClassId :=
  (store.descriptor? id).bind fun d => d.superName.bind view.registry.class?

/-- Every class is registered under its own name, and its supertype is the class that has the supertype
    name. -/
structure Tabled (view : View) (store : ClassStore) : Prop where
  own : ∀ name id, view.registry.class? name = some id → store.name? id = some name
  looked : ∀ name id, view.registry.class? name = some id → (superType view store id).1 = above view store id

/-- The class that is reached by following so many supertype names. -/
def reached? (view : View) (store : ClassStore) : Nat → ClassId → Option ClassId
  | 0, id => some id
  | steps + 1, id => (above view store id).bind (reached? view store steps)

/-- The class under `name` has the supertype name `base`, and there is a class under that. -/
def Extends (view : View) (store : ClassStore) (name base : String) : Prop :=
  ∃ id d, view.registry.class? name = some id ∧ store.descriptor? id = some d ∧ d.superName = some base ∧
    view.registry.hasClass base = true

/-- The classes that are reached from a class by following supertype names, the nearest first, up to the
    first name that cannot be found or comes again. -/
structure Line (view : View) (store : ClassStore) (id : ClassId) (classes : List ClassId) : Prop where
  reached : ∀ steps c, classes[steps]? = some c → reached? view store steps id = some c
  distinct : (classes.map store.name?).Nodup
  stops : ∀ c, reached? view store classes.length id = some c → store.name? c ∈ classes.map store.name?

/-- The class is registered under some name. -/
def Registered (view : View) (id : ClassId) : Prop := ∃ name, view.registry.class? name = some id

theorem registered_of_above {found : ClassId} (h : above view store id = some found) :
    Registered view found := by
  obtain ⟨d, -, named⟩ := Option.bind_eq_some_iff.1 h
  obtain ⟨name, -, here⟩ := Option.bind_eq_some_iff.1 named
  exact ⟨name, here⟩

/-- What supertype names lead to is in the table. -/
theorem registered_of_reached? {steps : Nat} (start : Registered view id)
    (h : reached? view store steps id = some c) : Registered view c := by
  induction steps generalizing id with
  | zero =>
    cases h
    exact start
  | succ steps ih =>
    obtain ⟨next, up, further⟩ := Option.bind_eq_some_iff.1 h
    exact ih (registered_of_above up) further

/-- One step more goes to the supertype of the class that was reached. -/
theorem reached?_succ (view : View) (store : ClassStore) (steps : Nat) (id : ClassId) :
    reached? view store (steps + 1) id = (reached? view store steps id).bind (above view store) := by
  induction steps generalizing id with
  | zero => exact Option.bind_fun_some _
  | succ steps ih =>
    have first (n : Nat) : reached? view store (n + 1) id = (above view store id).bind
      (reached? view store n) := rfl
    rw [first (steps + 1), first steps, Option.bind_assoc]
    exact congrArg (Option.bind _) (funext ih)

namespace Tabled

/-- A class of the table has one name, and is what the table has under it. -/
theorem class?_of_named (table : Tabled view store) (registered : Registered view c) :
    ∃ d, store.descriptor? c = some d ∧ view.registry.class? d.name = some c := by
  obtain ⟨name, here⟩ := registered
  obtain ⟨d, there, rfl⟩ := Option.map_eq_some_iff.1 (table.own name c here)
  exact ⟨d, there, here⟩

end Tabled

/-! ### The line of a class -/

/-- No two classes of a line have one name, and no name was seen before. -/
theorem Climbs.distinct {seen : List String} {next : Option ClassId} {classes : List ClassId}
    (h : Climbs view store seen next classes) :
    (classes.map store.name?).Nodup ∧ ∀ name ∈ seen, some name ∉ classes.map store.name? := by
  induction h with
  | root | missing | again => simp
  | @up seen id d above there new _ ih =>
    have here : store.name? id = some d.name := by rw [ClassStore.name?, there, Option.map_some]
    rw [List.map_cons, here]
    refine ⟨List.nodup_cons.2 ⟨ih.2 d.name (.head _), ih.1⟩, ?_⟩
    intro name known
    rw [List.mem_cons, not_or]
    exact ⟨fun same => new (Option.some_inj.1 same ▸ known), ih.2 name (.tail _ known)⟩

/-- In a table the line goes from each class to the one that has its supertype name. -/
theorem Climbs.follows (table : Tabled view store) {seen : List String} {next : Option ClassId}
    {classes : List ClassId} (h : Climbs view store seen next classes)
    (start : ∀ id, next = some id → Registered view id) :
    (∀ steps c, classes[steps]? = some c → next.bind (reached? view store steps) = some c) ∧
      ∀ c, next.bind (reached? view store classes.length) = some c →
        store.name? c ∈ seen.map some ++ classes.map store.name? := by
  induction h with
  | root => simp
  | @missing seen id absent =>
    obtain ⟨d, there, -⟩ := table.class?_of_named (start id rfl)
    rw [absent] at there
    cases there
  | @again seen id d there known =>
    refine ⟨by simp, ?_⟩
    intro c here
    cases here
    rw [ClassStore.name?, there, Option.map_some]
    exact List.mem_append_left _ (List.mem_map_of_mem known)
  | @up seen id d classes there new _ ih =>
    obtain ⟨name, registered⟩ := start id rfl
    rw [table.looked name id registered] at ih
    have step (n : Nat) : (some id).bind (reached? view store (n + 1))
        = (above view store id).bind (reached? view store n) := rfl
    obtain ⟨ups, stop⟩ := ih fun _ => registered_of_above
    have named : store.name? id = some d.name := by rw [ClassStore.name?, there, Option.map_some]
    constructor
    · rintro (_ | steps) c here
      · cases here
        rfl
      · rw [step]
        exact ups steps c here
    · intro c here
      rw [List.length_cons, step] at here
      have among := stop c here
      simp only [List.map_cons, List.cons_append, List.mem_cons, List.mem_append, named] at among ⊢
      tauto

/-- A registered class and its ancestors are its line. -/
theorem line_ancestors (table : Tabled view store) (registered : Registered view id) :
    Line view store id (id :: (ancestors view store id).1) := by
  obtain ⟨d, there, -⟩ := table.class?_of_named registered
  have climbs := climbs_ancestors view there
  obtain ⟨ups, stop⟩ := climbs.follows table fun _ same => Option.some_inj.1 same ▸ registered
  exact ⟨ups, climbs.distinct.1, stop⟩

namespace Line

variable {classes : List ClassId}

theorem registered (h : Line view store id classes) (start : Registered view id) (member : c ∈ classes) :
    Registered view c := by
  obtain ⟨steps, here⟩ := List.mem_iff_getElem?.1 member
  exact registered_of_reached? start (h.reached steps c here)

/-- The names of a line hold the supertype name of each of its classes, if there is a class under it. -/
theorem closed (h : Line view store id classes) {up : ClassId} (member : c ∈ classes)
    (next : above view store c = some up) : store.name? up ∈ classes.map store.name? := by
  obtain ⟨steps, here⟩ := List.mem_iff_getElem?.1 member
  have after : reached? view store (steps + 1) id = some up := by
    rw [reached?_succ, h.reached steps c here]
    exact next
  rcases Nat.lt_or_ge (steps + 1) classes.length with inside | past
  · have there := h.reached (steps + 1) _ (List.getElem?_eq_getElem inside)
    rw [after] at there
    cases there
    exact List.mem_map_of_mem (List.getElem_mem inside)
  · -- the class is the last one, so what comes next has a name of the line
    have last : steps + 1 = classes.length := Nat.le_antisymm (List.getElem?_eq_some_iff.1 here).1 past
    exact h.stops up (last ▸ after)

/-- What is reached comes by supertype names. -/
theorem leads_of_reached? (table : Tabled view store) {steps : Nat} {d : ClassDescriptor}
    (here : view.registry.class? name = some id) (h : reached? view store steps id = some c)
    (there : store.descriptor? c = some d) : ReflTransGen (Extends view store) name d.name := by
  induction steps generalizing name id with
  | zero =>
    cases h
    obtain ⟨d', there', rfl⟩ := Option.map_eq_some_iff.1 (table.own name _ here)
    rw [there] at there'
    cases there'
    exact .refl
  | succ steps ih =>
    obtain ⟨next, up, further⟩ := Option.bind_eq_some_iff.1 h
    obtain ⟨first, described, up⟩ := Option.bind_eq_some_iff.1 up
    obtain ⟨base, named, found⟩ := Option.bind_eq_some_iff.1 up
    have known : view.registry.hasClass base = true := by rw [Registry.hasClass, found, Option.isSome_some]
    exact .head ⟨id, first, here, described, named, known⟩ (ih found further)

/-- The names of a line are all that supertype names lead to, however far. -/
theorem exists_named_iff (h : Line view store id classes) (table : Tabled view store)
    (here : view.registry.class? name = some id) (first : classes.head? = some id) (base : String) :
    some base ∈ classes.map store.name? ↔ ReflTransGen (Extends view store) name base := by
  constructor
  · intro member
    obtain ⟨c, among, named⟩ := List.mem_map.1 member
    obtain ⟨steps, there⟩ := List.mem_iff_getElem?.1 among
    obtain ⟨d, described, rfl⟩ := Option.map_eq_some_iff.1 named
    exact leads_of_reached? table here (h.reached steps c there) described
  · intro leads
    induction leads with
    | refl =>
      rw [← table.own name id here]
      exact List.mem_map_of_mem (List.mem_of_head? first)
    | @tail middle base _ up among =>
      obtain ⟨c, d, found, described, named, known⟩ := up
      obtain ⟨target, reached⟩ := Option.isSome_iff_exists.1 known
      -- the class of the line that has the name is the one in the table
      have inside : c ∈ classes := by
        obtain ⟨c', member, same⟩ := List.mem_map.1 among
        obtain ⟨d', described', registered⟩ := table.class?_of_named (h.registered ⟨name, here⟩ member)
        rw [ClassStore.name?, described', Option.map_some, Option.some_inj] at same
        rw [same, found] at registered
        cases registered
        exact member
      have next : above view store c = some target := by
        rw [above, described, Option.bind_some, named, Option.bind_some, reached]
      rw [← table.own base target reached]
      exact h.closed inside next

end Line

/-! ### Answers -/

/-- A class is a subclass of the names in its line. -/
theorem isSubclassOf_iff_mem (there : store.name? id = some name) (base : String) :
    (isSubclassOf view store id base).1 = true ↔
      some base ∈ (id :: (ancestors view store id).1).map store.name? := by
  obtain ⟨d, described, rfl⟩ := Option.map_eq_some_iff.1 there
  rw [isSubclassOf, described, List.map_cons, there, List.mem_cons, Option.some_inj]
  dsimp only
  split
  next own => simp [own]
  next other => simp [ClassStore.name?, Ne.symm other, Option.any_eq_true]

theorem pick_inherited {α : Type} (view : View) (store : ClassStore) (id : ClassId)
    (ask : ClassDescriptor → Option α) :
    (pick view store id true ask).1 =
      (id :: (ancestors view store id).1).findSome? fun c => (store.descriptor? c).bind ask := by
  rw [pick, List.findSome?_cons]
  cases (store.descriptor? id).bind ask with
  | some found => rfl
  | none =>
    dsimp only
    rw [if_pos rfl, descriptor?_ancestors]

/-- The first class of the line with a member that is wanted has `member` as the first such. -/
def Provides {α : Type} (store : ClassStore) (classes : List ClassId) (members : ClassDescriptor → List α)
    (wanted : α → Prop) (member : α) : Prop :=
  ∃ nearer c further d earlier later, classes = nearer ++ c :: further ∧ store.descriptor? c = some d ∧
    members d = earlier ++ member :: later ∧ wanted member ∧ (∀ other ∈ earlier, ¬wanted other) ∧
    ∀ c' ∈ nearer, ∀ d', store.descriptor? c' = some d' → ∀ other ∈ members d', ¬wanted other

theorem pick_find?_iff {α : Type} (view : View) (store : ClassStore) (id : ClassId)
    (members : ClassDescriptor → List α) (wanted : α → Prop) [DecidablePred wanted] (member : α) :
    (pick view store id true fun d => (members d).find? fun m => wanted m).1 = some member ↔
      Provides store (id :: (ancestors view store id).1) members wanted member := by
  rw [pick_inherited, List.findSome?_eq_some_iff]
  constructor
  · rintro ⟨nearer, c, further, split, found, none⟩
    obtain ⟨d, there, first⟩ := Option.bind_eq_some_iff.1 found
    obtain ⟨fits, earlier, later, members, before⟩ := List.find?_eq_some_iff_append.1 first
    refine ⟨nearer, c, further, d, earlier, later, split, there, members, by simpa using fits, ?_, ?_⟩
    · intro other early
      simpa using before other early
    · intro c' near d' there' other among
      have nothing := none c' near
      rw [there', Option.bind_some, List.find?_eq_none] at nothing
      simpa using nothing other among
  · rintro ⟨nearer, c, further, d, earlier, later, split, there, members, fits, before, none⟩
    refine ⟨nearer, c, further, split, ?_, ?_⟩
    · rw [there, Option.bind_some, List.find?_eq_some_iff_append]
      exact ⟨by simpa using fits, earlier, later, members,
        fun other early => by simpa using before other early⟩
    · intro c' near
      cases there' : store.descriptor? c' with
      | none => rfl
      | some d' =>
        rw [Option.bind_some, List.find?_eq_none]
        exact fun other among => by simpa using none c' near d' there' other among

/-- The answers to all questions about a class of a table.  Its ancestors are the rest of its line.  It is a
    subclass of the names that supertype names lead to, itself included.  Of inherited members the first of
    the nearest class is found. -/
theorem questions_follow_supertypes (table : Tabled view store)
    (here : view.registry.class? name = some id) :
    Line view store id (id :: (ancestors view store id).1) ∧
      (∀ base, (isSubclassOf view store id base).1 = true ↔ ReflTransGen (Extends view store) name base) ∧
      (isSubclassOf view store id name).1 = true ∧
      (∀ middle other base, view.registry.class? middle = some other →
        (isSubclassOf view store id middle).1 = true → (isSubclassOf view store other base).1 = true →
        (isSubclassOf view store id base).1 = true) ∧
      (∀ spaces wanted v, (inheritedVariable? view store id spaces wanted true).1 = some v ↔
        Provides store (id :: (ancestors view store id).1) ClassDescriptor.vars
          (fun v => v.name = wanted ∧ v.space ∈ spaces) v) ∧
      ∀ kind spaces wanted m, (inheritedMethod? view store id kind spaces wanted true).1 = some m ↔
        Provides store (id :: (ancestors view store id).1) (fun d => d.ofKind kind)
          (fun m => m.name = wanted ∧ m.space ∈ spaces) m := by
  have subclass {name : String} {id : ClassId} (here : view.registry.class? name = some id) (base : String) :
      (isSubclassOf view store id base).1 = true ↔ ReflTransGen (Extends view store) name base :=
    (isSubclassOf_iff_mem (table.own name id here) base).trans
      ((line_ancestors table ⟨name, here⟩).exists_named_iff table here rfl base)
  refine ⟨line_ancestors table ⟨name, here⟩, subclass here, (subclass here name).2 .refl, ?_, ?_, ?_⟩
  · intro middle other base found first second
    exact (subclass here base).2 (((subclass here middle).1 first).trans ((subclass found base).1 second))
  · intro spaces wanted v
    rw [← pick_find?_iff]
    simp only [inheritedVariable?, ClassDescriptor.variableNamed?, Bool.decide_and, List.contains_eq_mem]
  · intro kind spaces wanted m
    rw [← pick_find?_iff]
    simp only [inheritedMethod?, ClassDescriptor.methodNamed?, ClassDescriptor.findMethod, Bool.decide_and,
      List.contains_eq_mem]

/-- A class below a cycle of two.  The last class is the one of values without a type. -/
def coopStore : ClassStore where
  records := [⟨{ name := "Chick", superName := some "Hen" }, true, none, none⟩,
    ⟨{ name := "Hen", superName := some "Egg" }, true, none, none⟩,
    ⟨{ name := "Egg", superName := some "Hen" }, true, none, none⟩,
    ⟨ClassDescriptor.untyped, true, none, none⟩]

def coopView : View where
  registry := { untyped := 3, classes := ⟨[("Chick", 0), ("Hen", 1), ("Egg", 2)]⟩, generation := 1 }
  held := fun _ => true

theorem tabled_coop : Tabled coopView coopStore := by
  have cases (name : String) (id : ClassId) (here : coopView.registry.class? name = some id) :
      (id = 0 ∧ name = "Chick") ∨ (id = 1 ∧ name = "Hen") ∨ (id = 2 ∧ name = "Egg") ∨
        (id = 3 ∧ name = "*") := by
    simp only [coopView, Registry.class?, ClassDescriptor.untypedName, Table.get?, Table.lookup] at here
    grind
  constructor
  · intro name id here
    rcases cases name id here with ⟨rfl, rfl⟩ | ⟨rfl, rfl⟩ | ⟨rfl, rfl⟩ | ⟨rfl, rfl⟩ <;> rfl
  · intro name id here
    rcases cases name id here with ⟨rfl, -⟩ | ⟨rfl, -⟩ | ⟨rfl, -⟩ | ⟨rfl, -⟩ <;> decide +kernel

/-- The chick comes from the hen and from the egg, and neither of them from the chick. -/
theorem questions_follow_supertypes_coop :
    Tabled coopView coopStore ∧ coopView.registry.class? "Chick" = some 0 ∧
      Line coopView coopStore 0 [0, 1, 2] ∧ ReflTransGen (Extends coopView coopStore) "Chick" "Egg" ∧
      ¬ReflTransGen (Extends coopView coopStore) "Egg" "Chick" := by
  have chick :=
    questions_follow_supertypes tabled_coop (show coopView.registry.class? "Chick" = some 0 by decide)
  have egg :=
    questions_follow_supertypes tabled_coop (show coopView.registry.class? "Egg" = some 2 by decide)
  have line : (ancestors coopView coopStore 0).1 = [1, 2] := by decide +kernel
  refine ⟨tabled_coop, by decide, line ▸ chick.1, (chick.2.1 "Egg").1 (by decide +kernel), ?_⟩
  intro leads
  have no : (isSubclassOf coopView coopStore 2 "Chick").1 = false := by decide +kernel
  rw [(egg.2.1 "Chick").2 leads] at no
  cases no

end Hierarchy

end AbcBuild
