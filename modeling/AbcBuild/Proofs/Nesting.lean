/-
Module: AbcBuild.Proofs.Nesting
Purpose: How deep the recursion over parametrised types goes, and what its answer depends on.  Unless names
  run in a circle, no more calls are nested than there are names and one; and entries that a name does not
  lead to show only in the size of a table that a fault tells.
Main exports: Resolve.nested, Abc.ConstantPool.Reaches, Abc.ConstantPool.SameEntry,
  Resolve.recursion_ends_locally
-/
import AbcBuild.Proofs.NameTexts

namespace AbcBuild

open Abc Abc.ConstantPool

/-! ### Nested calls -/

namespace Resolve

variable {pool pool' : ConstantPool} {depth index : Nat}

/-- The name at an index by recursion alone, or no answer at all once more than `depth` calls are nested.
    Only a parametrised type asks for other names. -/
def nested (pool : ConstantPool) : Nat → Nat → ExceptT DecodeError Option (Option Name)
  | 0, _ => ExceptT.mk none
  | depth + 1, index =>
    match pool.multiname index with
    | .ok (.typeName base parameters) => do
      match ← nested pool depth base with
      | none => return none
      | some base =>
        let arguments ← parameters.mapM (nested pool depth)
        return some (parametrised base.first (arguments.map argumentText))
    | _ => ExceptT.mk (some (nameWithin pool 1 index))

theorem mapM_answered {α β : Type} {run : α → ExceptT DecodeError Option β}
    {answer : α → Except DecodeError β} {items : List α}
    (same : ∀ item ∈ items, run item = ExceptT.mk (some (answer item))) :
    items.mapM run = ExceptT.mk (some (items.mapM answer)) := by
  induction items with
  | nil => rfl
  | cons item rest ih =>
    rw [List.mapM_cons, List.mapM_cons, same item (.head _), ih fun other member =>
      same other (.tail _ member)]
    cases answer item with
    | error e => rfl
    | ok b => cases rest.mapM answer <;> rfl

/-- Where no chain of names is too long, the recursion has an answer. -/
theorem nested_eq (within : pool.Within depth index) :
    nested pool depth index = ExceptT.mk (some (nameWithin pool depth index)) := by
  induction depth generalizing index with
  | zero => exact within.elim
  | succ depth ih =>
    by_cases typed : pool.Parametrised index
    · obtain ⟨base, parameters, here⟩ := typed
      have inner (mentioned : Nat) (h : mentioned = base ∨ mentioned ∈ parameters) :=
        ih (within _ ⟨base, parameters, here, h⟩)
      rw [nameWithin_typeName here, nested, here]
      dsimp only
      rw [inner base (Or.inl rfl), mapM_answered fun parameter listed => inner parameter (Or.inr listed)]
      rcases nameWithin pool depth base with e | _ | n
      · rfl
      · rfl
      · cases parameters.mapM (nameWithin pool depth) <;> rfl
    · have alone : pool.Within 1 index :=
        fun _ ⟨base, parameters, here, _⟩ => (typed ⟨base, parameters, here⟩).elim
      rw [nested, nameWithin_eq within alone]
      split
      next base parameters here => exact (typed ⟨base, parameters, here⟩).elim
      next => rfl

end Resolve

/-! ### What a name leads to -/

/-- The fault without the size of the table. -/
def DecodeError.unsized : DecodeError → DecodeError
  | .indexOutOfRange table index _ => .indexOutOfRange table index 0
  | e => e

/-- The results are equal, up to the size of a table that a fault tells. -/
def Alike {α : Type} (result result' : Except DecodeError α) : Prop :=
  result.mapError DecodeError.unsized = result'.mapError DecodeError.unsized

namespace Alike

variable {α β : Type} {result result' : Except DecodeError α}

theorem bind {next next' : α → Except DecodeError β} (h : Alike result result')
    (rest : ∀ a, result = .ok a → Alike (next a) (next' a)) :
    Alike (result >>= next) (result' >>= next') := by
  cases result with
  | error e =>
    cases result' with
    | error e' => exact congrArg Except.error (Except.error.inj h)
    | ok a => cases h
  | ok a =>
    cases result' with
    | error e => cases h
    | ok a' =>
      cases Except.ok.inj h
      exact rest a rfl

theorem mapM {f f' : β → Except DecodeError α} {items : List β}
    (h : ∀ item ∈ items, Alike (f item) (f' item)) :
    Alike (items.mapM f) (items.mapM f') := by
  induction items with
  | nil => rfl
  | cons item rest ih =>
    rw [List.mapM_cons, List.mapM_cons]
    refine (h item (.head _)).bind fun a _ => ?_
    exact (ih fun other member => h other (List.mem_cons_of_mem item member)).bind fun _ _ => rfl

/-- Tables with the same entry at an index, or both with none, answer alike. -/
theorem entry {table : TableKind} {items items' : List α} {index : Nat}
    (same : (ConstantPool.entry table items index).toOption = (ConstantPool.entry table items'
      index).toOption) :
    Alike (ConstantPool.entry table items index) (ConstantPool.entry table items' index) := by
  cases found : ConstantPool.entry table items index with
  | ok a =>
    rw [found] at same
    rw [toOption_eq_some.1 same.symm]
    rfl
  | error e =>
    cases found' : ConstantPool.entry table items' index with
    | ok a =>
      rw [found, found'] at same
      cases same
    | error e' =>
      rw [(entry_eq_error_iff.1 found).2, (entry_eq_error_iff.1 found').2]
      rfl

end Alike

namespace Abc.ConstantPool

/-- Both pools have the same entry at an index of a table, or none. -/
def SameEntry (pool pool' : ConstantPool) (index : Nat) : TableKind → Prop
  | .string => (pool.string index).toOption = (pool'.string index).toOption
  | .space => (pool.space index).toOption = (pool'.space index).toOption
  | .spaceSet => (pool.spaceSet index).toOption = (pool'.spaceSet index).toOption
  | .multiname => (pool.multiname index).toOption = (pool'.multiname index).toOption
  | _ => True

/-- The entries that are reached from a name: the names that it leads to, with their namespaces and
    strings. -/
def Reaches (pool : ConstantPool) (index : Nat) (table : TableKind) (target : Nat) : Prop :=
  ∃ i, Relation.ReflTransGen pool.Mentions index i ∧ NameFollows pool i table target

/-- The pools have the same entries wherever the name at an index leads to in the first. -/
def AgreeFrom (pool pool' : ConstantPool) (index : Nat) : Prop :=
  ∀ table target, pool.Reaches index table target → pool.SameEntry pool' target table

variable {pool pool' : ConstantPool} {index i j : Nat}

theorem AgreeFrom.mentioned (h : pool.AgreeFrom pool' index) (mentions : pool.Mentions index i) :
    pool.AgreeFrom pool' i := by
  rintro table target ⟨j, leads, follows⟩
  exact h table target ⟨j, .head mentions leads, follows⟩

theorem AgreeFrom.mentions (h : pool.AgreeFrom pool' index)
    (leads : Relation.ReflTransGen pool.Mentions index i) (mentions : pool'.Mentions i j) :
    pool.Mentions i j := by
  obtain ⟨base, parameters, here, listed⟩ := mentions
  have same := h .multiname i ⟨i, leads, .self (entry_eq_ok_iff.1 here).1⟩
  exact ⟨base, parameters, toOption_eq_some.1 (same.trans (toOption_eq_some.2 here)), listed⟩

theorem AgreeFrom.leads (h : pool.AgreeFrom pool' index)
    (leads : Relation.ReflTransGen pool'.Mentions index i) :
    Relation.ReflTransGen pool.Mentions index i := by
  induction leads with
  | refl => exact .refl
  | tail _ last ih => exact ih.tail (h.mentions ih last)

theorem AgreeFrom.acyclic (h : pool.AgreeFrom pool' index) (acyclic : pool.AcyclicFrom index) :
    pool'.AcyclicFrom index := by
  intro i leads circle
  have there := h.leads leads
  have along {k : Nat} (path : Relation.TransGen pool'.Mentions i k) :
      Relation.TransGen pool.Mentions i k := by
    induction path with
    | single first => exact .single (h.mentions there first)
    | tail _ last ih => exact ih.tail (h.mentions (there.trans ih.to_reflTransGen) last)
  exact acyclic i there (along circle)

theorem AcyclicFrom.within {depth : Nat} (acyclic : pool.AcyclicFrom index)
    (enough : pool.multinames.length < depth) :
    pool.Within depth index :=
  within_of_passed acyclic List.nodup_nil (List.forall_mem_nil _) (List.forall_mem_nil _) enough

end Abc.ConstantPool

namespace Resolve

variable {pool pool' : ConstantPool} {depth index : Nat}

theorem alike_string (same : pool.SameEntry pool' index .string) :
    Alike (pool.string index) (pool'.string index) := by
  by_cases none : index = 0
  · subst none
    rfl
  · simp only [SameEntry, ConstantPool.string, if_neg none] at same ⊢
    exact .entry same

theorem alike_spaceUri
    (same : ∀ table target, SpaceFollows pool index table target → pool.SameEntry pool' target table) :
    Alike (spaceUri pool index) (spaceUri pool' index) :=
  (Alike.entry (same .space index .self)).bind fun _ found => alike_string (same _ _ (.uri found))

/-- Under one bound on the depth, pools that agree on what a name leads to answer alike. -/
theorem alike_nameWithin (agree : pool.AgreeFrom pool' index) :
    Alike (nameWithin pool depth index) (nameWithin pool' depth index) := by
  induction depth generalizing index with
  | zero => rfl
  | succ depth ih =>
    have own {table : TableKind} {target : Nat} (follows : NameFollows pool index table target) :=
      agree table target ⟨index, .refl, follows⟩
    rw [nameWithin, nameWithin]
    split
    next => rfl
    next some =>
      refine (Alike.entry (own (.self some))).bind fun info here => ?_
      cases info with
      | qname attr space name =>
        refine (alike_spaceUri fun _ _ inner => own (.space here inner)).bind fun _ _ => ?_
        exact (alike_string (own (.name here))).bind fun _ _ => rfl
      | multiname attr name spaceSet =>
        refine (Alike.entry (own (.spaceSet here))).bind fun set found => ?_
        refine (Alike.mapM fun space listed => alike_spaceUri fun _ _ inner =>
          own (.member here found listed inner)).bind fun _ _ => ?_
        exact (alike_string (own (.openName here))).bind fun _ _ => rfl
      | typeName base parameters =>
        refine (ih (agree.mentioned ⟨_, _, here, .inl rfl⟩)).bind fun found _ => ?_
        cases found with
        | none => rfl
        | some n =>
          exact (Alike.mapM fun parameter listed => ih (agree.mentioned ⟨_, _, here, .inr listed⟩)).bind
            fun _ _ => rfl
      | runtimeSpace | runtimeBoth | runtimeName => rfl

/-- If no name that the one at an index leads to mentions itself, its resolution ends with at most one nested
    call more than there are names, and no larger bound changes the answer.  Pools that agree on the entries
    that are reached from it give the same answer, but for the size of a table that a fault tells. -/
theorem recursion_ends_locally (acyclic : pool.AcyclicFrom index) :
    (nested pool (pool.multinames.length + 1) index).run = some (name pool index) ∧
      (∀ bound, pool.multinames.length < bound → nameWithin pool bound index = name pool index) ∧
      ∀ pool', pool.AgreeFrom pool' index → Alike (name pool index) (name pool' index) := by
  have within := acyclic.within (Nat.lt_succ_self _)
  refine ⟨congrArg ExceptT.run (nested_eq within), fun bound enough =>
    nameWithin_eq (acyclic.within enough) within, fun pool' agree => ?_⟩
  -- both bounds are large enough for both pools
  let bound := max (pool.multinames.length + 1) (pool'.multinames.length + 1)
  have deep : pool.Within bound index := acyclic.within (Nat.lt_of_succ_le (Nat.le_max_left ..))
  have acyclic' := agree.acyclic acyclic
  have deep' : pool'.Within bound index := acyclic'.within (Nat.lt_of_succ_le (Nat.le_max_right ..))
  rw [name, name, nameWithin_eq within deep, nameWithin_eq (acyclic'.within (Nat.lt_succ_self _)) deep']
  exact alike_nameWithin agree

/-- A name whose string is missing, and a type with this name for an argument. -/
def gapped : ConstantPool where
  spaces := [⟨.packageSpace, 0⟩]
  multinames := [.qname false 1 0, .qname false 1 5, .typeName 1 [2]]

/-- The same with a string that no name refers to. -/
def padded : ConstantPool := { gapped with strings := ["spare"] }

theorem acyclicFrom_gapped (index : Nat) : gapped.AcyclicFrom index := by
  have acyclic : gapped.Acyclic := acyclic_of_earlier (by decide)
  exact fun i _ => acyclic i

theorem agreeFrom_padded (index : Nat) : gapped.AgreeFrom padded index := by
  -- the string of a name or a namespace has index 0 or 5
  have space {i : Nat} {table : TableKind} {target : Nat} (h : SpaceFollows gapped i table target) :
      gapped.SameEntry padded target table := by
    cases h with
    | self => rfl
    | uri found =>
      rw [List.mem_singleton.1 (List.mem_of_getElem? (ConstantPool.entry_eq_ok_iff.1 found).2)]
      rfl
  have listed {i : Nat} {info : MultinameInfo} (here : gapped.multiname i = .ok info) :
      info ∈ gapped.multinames :=
    List.mem_of_getElem? (ConstantPool.entry_eq_ok_iff.1 here).2
  rintro table target ⟨i, -, follows⟩
  induction follows with
  | self | spaceSet => rfl
  | space _ inner | member _ _ _ inner => exact space inner
  | name here =>
    have member := listed here
    simp [gapped] at member
    rcases member with ⟨_, _, rfl⟩ | ⟨_, _, rfl⟩ <;> rfl
  | openName here => simpa [gapped] using listed here
  | base _ _ ih | parameter _ _ _ _ ih => exact ih

/-- The type is resolved with two nested calls, up to the string that is missing in both pools. -/
theorem recursion_ends_locally_gapped :
    gapped.AcyclicFrom 3 ∧ (nested gapped 4 3).run = some (.error (.indexOutOfRange .string 5 1)) ∧
      nameWithin gapped 9 3 = .error (.indexOutOfRange .string 5 1) ∧ gapped.AgreeFrom padded 3 ∧
      Alike (name gapped 3) (name padded 3) := by
  obtain ⟨ends, bounds, local_⟩ := recursion_ends_locally (acyclicFrom_gapped 3)
  exact ⟨acyclicFrom_gapped 3, ends, bounds 9 (by decide), agreeFrom_padded 3,
    local_ padded (agreeFrom_padded 3)⟩

/-- The answer shows how many entries a table has, whether they are reached or not. -/
theorem size_of_table_shows :
    gapped.AcyclicFrom 3 ∧ gapped.AgreeFrom padded 3 ∧
      name gapped 3 = .error (.indexOutOfRange .string 5 1) ∧
      name padded 3 = .error (.indexOutOfRange .string 5 2) ∧ name gapped 3 ≠ name padded 3 :=
  ⟨acyclicFrom_gapped 3, agreeFrom_padded 3, rfl, rfl, by decide⟩

end Resolve

end AbcBuild
