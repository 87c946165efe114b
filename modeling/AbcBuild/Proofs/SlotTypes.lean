/-
Module: AbcBuild.Proofs.SlotTypes
Purpose: What binding the types of data slots does to a frame.  The types are collected first and entered
  after that, each by a search for its member; every member gets its own type and no other.
Main exports: Frame.typeOf, Frame.boundSlots_eq, Frame.Placed.resolveTypes, Frame.Placed.get?_types
-/
import AbcBuild.Analysis.Constants
import AbcBuild.Proofs.Table
import Mathlib.Data.List.Flatten

namespace AbcBuild

/-! ### Changes to tables -/

namespace Table

variable {κ ν : Type} [DecidableEq κ]

theorem lookup_of_absent {key : κ} {entries : List (κ × ν)} (absent : key ∉ entries.map Prod.fst) :
    lookup key entries = none := by
  rw [← Option.not_isSome_iff_eq_none, isSome_lookup]
  exact absent

theorem put_append {key : κ} {before : List (κ × ν)} (absent : key ∉ before.map Prod.fst) (value : ν)
    (after : List (κ × ν)) : put key value (before ++ after) = before ++ put key value after := by
  induction before with
  | nil => rfl
  | cons entry rest ih =>
    obtain ⟨k, v⟩ := entry
    rw [List.map_cons, List.mem_cons, not_or] at absent
    rw [List.cons_append, put, if_neg fun same => absent.1 same.symm, ih absent.2, List.cons_append]

/-- A change is made at the place of its key. -/
theorem modify_append {key : κ} {before : List (κ × ν)} (absent : key ∉ before.map Prod.fst) (value : ν)
    (after : List (κ × ν)) (change : ν → ν) :
    (⟨before ++ (key, value) :: after⟩ : Table κ ν).modify key change
    = ⟨before ++ (key, change value) :: after⟩ := by
  have found : (⟨before ++ (key, value) :: after⟩ : Table κ ν).get? key = some value := by
    rw [get?, lookup_append, lookup_of_absent absent, Option.none_or, lookup, if_pos rfl]
  rw [modify, found]
  simp only [insert]
  rw [put_append absent, put, if_pos rfl]

/-- A change of every value, one key after the other. -/
theorem foldl_modify (change : ν → ν → ν) (before : List (κ × ν)) {rest : List (κ × ν)}
    (distinct : ((before ++ rest).map Prod.fst).Nodup) :
    rest.foldl (fun t entry => t.modify entry.1 (change entry.2)) (⟨before ++ rest⟩ : Table κ ν) =
      ⟨before ++ rest.map fun entry => (entry.1, change entry.2 entry.2)⟩ := by
  induction rest generalizing before with
  | nil => rfl
  | cons entry rest ih =>
    obtain ⟨key, value⟩ := entry
    have absent : key ∉ before.map Prod.fst := by
      rw [List.map_append, List.map_cons] at distinct
      exact fun member => List.disjoint_of_nodup_append distinct member (.head _)
    have moved : ((before ++ [(key, change value value)] ++ rest).map Prod.fst).Nodup := by
      simpa using distinct
    rw [List.foldl_cons, modify_append absent, List.append_cons, ih _ moved, List.map_cons,
      List.append_assoc]
    rfl

theorem modify_id (t : Table κ ν) (key : κ) : t.modify key id = t := by
  unfold modify
  split
  next => rfl
  next value found => rw [id, insert, put_of_lookup found]

theorem put_put (key : κ) (first second : ν) (entries : List (κ × ν)) :
    put key second (put key first entries) = put key second entries := by
  induction entries with
  | nil => simp [put]
  | cons entry rest ih =>
    obtain ⟨k, v⟩ := entry
    by_cases here : k = key <;> simp [put, here, ih]

theorem modify_modify (t : Table κ ν) (key : κ) (first second : ν → ν) :
    (t.modify key first).modify key second = t.modify key fun value => second (first value) := by
  cases found : t.get? key with
  | none => simp only [modify, found]
  | some value =>
    have changed : (t.insert key (first value)).get? key = some (first value) := by
      rw [get?_insert, if_pos rfl]
    simp only [modify, found, changed]
    rw [insert, insert, insert, put_put]

end Table

namespace Frame

variable {f : Frame}

/-! ### The type of a member -/

/-- The type of a member: that of a data slot is the first candidate of the declared type that the frame
    knows, else the first builtin one.  Other members have none. -/
def typeOf (f : Frame) (m : MemberSlot) : Option QName :=
  if m.kind.isData then
    m.declaredType.bind fun n => (n.candidates.find? f.contains).or (n.candidates.find? QName.isBuiltin)
  else none

/-- The member with its type entered. -/
def enterType (f : Frame) (m : MemberSlot) : MemberSlot := { m with resolvedType := f.typeOf m }

/-- What is collected for a member. -/
def entryOf (f : Frame) (owner : QName) (m : MemberSlot) : Option (TypedSlot × QName) :=
  if m.kind.isData then
    m.declaredType.bind fun declared => (f.bind declared).map fun type => (⟨owner, m, declared⟩, type)
  else none

variable {m : MemberSlot}

theorem entryOf_eq_some {owner : QName} {entry : TypedSlot × QName} (h : f.entryOf owner m = some entry) :
    entry.1.owner = owner ∧ entry.1.member = m ∧ f.typeOf m = some entry.2 := by
  unfold entryOf at h
  split at h
  next data =>
    obtain ⟨declared, named, bound⟩ := Option.bind_eq_some_iff.1 h
    obtain ⟨type, found, rfl⟩ := Option.map_eq_some_iff.1 bound
    refine ⟨rfl, rfl, ?_⟩
    rw [typeOf, if_pos data, named, Option.bind_some]
    exact found
  next => cases h

theorem typeOf_eq_none {owner : QName} (h : f.entryOf owner m = none) : f.typeOf m = none := by
  unfold entryOf at h
  unfold typeOf
  split at h
  next data =>
    rw [if_pos data]
    refine Option.bind_eq_none_iff.2 fun declared named => ?_
    exact Option.map_eq_none_iff.1 (Option.bind_eq_none_iff.1 h declared named)
  next method => rw [if_neg method]

/-- What is collected, class by class and member by member. -/
theorem boundSlots_eq (f : Frame) :
    f.boundSlots = f.classes.flatMap fun c => c.members.filterMap (f.entryOf c.name) := by
  simp only [boundSlots, typedSlots, List.filterMap_flatMap, List.filterMap_filterMap]
  refine List.flatMap_congr fun c _ => List.filterMap_congr fun m _ => ?_
  unfold entryOf
  cases m.kind.isData with
  | false => rfl
  | true => cases m.declaredType <;> rfl

/-! ### The members of one class -/

/-- No two members share a place, every member has one, and none has a type yet. -/
structure Fresh (slots : List MemberSlot) : Prop where
  apart : slots.Pairwise fun m m' => m.traitRef ≠ m'.traitRef
  placed : ∀ m ∈ slots, m.traitRef.isSome = true
  untyped : ∀ m ∈ slots, m.resolvedType = none

/-- A type goes to the member at the place, past the members at other places. -/
theorem setType_append (placed : m.traitRef.isSome = true) (type : QName) {before : List MemberSlot}
    (apart : ∀ m' ∈ before, m'.traitRef ≠ m.traitRef) (after : List MemberSlot) :
    setType m type (before ++ m :: after) = before ++ { m with resolvedType := some type } :: after := by
  obtain ⟨ref, place⟩ := Option.isSome_iff_exists.1 placed
  induction before with
  | nil => simp [setType, sameSlot, place]
  | cons first rest ih =>
    have other : sameSlot m first = false := by
      simpa [sameSlot, place] using apart first (.head _)
    rw [List.cons_append, setType, other, ih fun m' later => apart m' (.tail _ later)]
    rfl

/-- Enter types one after the other. -/
def setTypes (entries : List (TypedSlot × QName)) (slots : List MemberSlot) : List MemberSlot :=
  entries.foldl (fun slots entry => setType entry.1.member entry.2 slots) slots

/-- What is collected for members goes to these very members. -/
theorem setTypes_append (f : Frame) (owner : QName) {rest : List MemberSlot} (fresh : Fresh rest)
    (done : List MemberSlot) (apart : ∀ m ∈ rest, ∀ m' ∈ done, m'.traitRef ≠ m.traitRef) :
    setTypes (rest.filterMap (f.entryOf owner)) (done ++ rest) = done ++ rest.map f.enterType := by
  induction rest generalizing done with
  | nil => rfl
  | cons m rest ih =>
    obtain ⟨others, later⟩ := List.pairwise_cons.1 fresh.apart
    have fresh' : Fresh rest := ⟨later, fun m' listed => fresh.placed m' (.tail _ listed),
      fun m' listed => fresh.untyped m' (.tail _ listed)⟩
    have apart' : ∀ m' ∈ rest, ∀ m'' ∈ done ++ [f.enterType m], m''.traitRef ≠ m'.traitRef := by
      intro m' listed m'' earlier
      rcases List.mem_append.1 earlier with old | this
      · exact apart m' (.tail _ listed) m'' old
      · cases List.mem_singleton.1 this
        exact others m' listed
    -- the induction goes on with the member among those that are done, its type entered
    have step : setTypes (rest.filterMap (f.entryOf owner)) (done ++ f.enterType m :: rest) =
        done ++ (m :: rest).map f.enterType := by
      rw [List.append_cons, ih fresh' _ apart', List.map_cons, List.append_assoc]
      rfl
    cases collected : f.entryOf owner m with
    | none =>
      have same : f.enterType m = m := by
        rw [enterType, typeOf_eq_none collected, ← fresh.untyped m (.head _)]
      rw [List.filterMap_cons_none collected]
      rw [same] at step
      exact step
    | some entry =>
      obtain ⟨-, member, type⟩ := entryOf_eq_some collected
      rw [List.filterMap_cons_some collected, setTypes, List.foldl_cons, member,
        setType_append (fresh.placed m (.head _)) _ (apart m (.head _)), ← type]
      exact step

/-! ### All classes -/

/-- Entering what is collected for one class is one change to its slot. -/
theorem foldl_applyType {name : QName} {entries : List (TypedSlot × QName)}
    (owned : ∀ entry ∈ entries, entry.1.owner = name) (f : Frame) :
    entries.foldl (fun f entry => f.applyType entry.1 entry.2) f =
      { f with own := f.own.modify name fun c => { c with members := setTypes entries c.members } } := by
  induction entries generalizing f with
  | nil => exact congrArg (fun own => { f with own := own }) (f.own.modify_id name).symm
  | cons entry rest ih =>
    rw [List.foldl_cons, ih fun entry later => owned entry (.tail _ later)]
    rw [applyType, owned entry (.head _)]
    simp only [Table.modify_modify, setTypes, List.foldl_cons]

/-- Enter into a slot what is collected for the class `c`. -/
def enterTypes (f : Frame) (c slot : ClassSlot) : ClassSlot :=
  { slot with members := setTypes (c.members.filterMap (f.entryOf c.name)) slot.members }

theorem enterTypes_self (f : Frame) {c : ClassSlot} (fresh : Fresh c.members) :
    f.enterTypes c c = { c with members := c.members.map f.enterType } := by
  have all := f.setTypes_append c.name fresh [] fun _ _ _ none => (List.not_mem_nil none).elim
  exact congrArg (fun members => { c with members := members }) all

/-- Entering what is collected for several classes is one change for each of them. -/
theorem foldl_applyTypes (f : Frame) (classes : List ClassSlot) (g : Frame) :
    (classes.flatMap fun c => c.members.filterMap (f.entryOf c.name)).foldl
        (fun g entry => g.applyType entry.1 entry.2) g =
      { g with own := classes.foldl (fun own c => own.modify c.name (f.enterTypes c)) g.own } := by
  induction classes generalizing g with
  | nil => rfl
  | cons c rest ih =>
    have owned : ∀ entry ∈ c.members.filterMap (f.entryOf c.name), entry.1.owner = c.name := by
      intro entry listed
      obtain ⟨m, -, collected⟩ := List.mem_filterMap.1 listed
      exact (entryOf_eq_some collected).1
    rw [List.flatMap_cons, List.foldl_append, foldl_applyType owned, ih]
    rfl

/-- The own slots stand under their own names, with members as they come from a program: at places of their
    own and without types. -/
structure Placed (f : Frame) : Prop where
  distinct : f.own.keys.Nodup
  named : ∀ entry ∈ f.own.entries, entry.2.name = entry.1
  fresh : ∀ c ∈ f.classes, Fresh c.members
  unique : ∀ c ∈ f.classes, ∀ c' ∈ f.classes, ∀ m ∈ c.members, ∀ m' ∈ c'.members, m.traitRef = m'.traitRef →
    m = m'

/-- Every own member gets its own type, and nothing else changes. -/
theorem Placed.resolveTypes (h : f.Placed) : f.resolveTypes.1 =
    { f with own := ⟨f.own.entries.map fun entry =>
      (entry.1, { entry.2 with members := entry.2.members.map f.enterType })⟩ } := by
  have own : f.classes.foldl (fun own c => own.modify c.name (f.enterTypes c)) f.own =
      ⟨f.own.entries.map fun entry =>
        (entry.1, { entry.2 with members := entry.2.members.map f.enterType })⟩ :=
    calc f.classes.foldl (fun own c => own.modify c.name (f.enterTypes c)) f.own
        = f.own.entries.foldl (fun own entry => own.modify entry.2.name (f.enterTypes entry.2)) f.own :=
          List.foldl_map
      _ = f.own.entries.foldl (fun own entry => own.modify entry.1 (f.enterTypes entry.2)) f.own :=
          List.foldl_ext _ _ _ fun own entry listed => by rw [h.named entry listed]
      _ = ⟨f.own.entries.map fun entry => (entry.1, f.enterTypes entry.2 entry.2)⟩ :=
          Table.foldl_modify f.enterTypes [] h.distinct
      _ = _ := by
          congr 1
          refine List.map_congr_left fun entry listed => ?_
          rw [f.enterTypes_self (h.fresh entry.2 (List.mem_map_of_mem listed))]
  calc f.resolveTypes.1
      = f.boundSlots.foldl (fun f entry => f.applyType entry.1 entry.2) f := rfl
    _ = _ := by rw [boundSlots_eq, foldl_applyTypes, own]

/-! ### Types by place, and what is left -/

theorem types_eq_insertAll (f : Frame) : f.resolveTypes.2.1 =
    Table.empty.insertAll
      (f.boundSlots.filterMap fun entry => entry.1.member.traitRef.map fun ref => (ref, entry.2)) := by
  unfold Frame.resolveTypes
  generalize f.boundSlots = bound
  simp only
  generalize (Table.empty : SlotTypes) = types
  induction bound generalizing types with
  | nil => rfl
  | cons entry rest ih =>
    obtain ⟨slot, type⟩ := entry
    cases href : slot.member.traitRef with
    | none => simpa [href] using ih types
    | some ref => simpa [href, Table.insertAll] using ih (types.insert ref type)

theorem mem_boundSlots {entry : TypedSlot × QName} :
    entry ∈ f.boundSlots ↔ ∃ c ∈ f.classes, ∃ m ∈ c.members, f.entryOf c.name m = some entry := by
  simp only [boundSlots_eq, List.mem_flatMap, List.mem_filterMap]

/-- The type at the place of a member is that of the member. -/
theorem Placed.get?_types (h : f.Placed) {c : ClassSlot} (hc : c ∈ f.classes) (hm : m ∈ c.members)
    {ref : TraitRef} (place : m.traitRef = some ref) : f.resolveTypes.2.1.get? ref = f.typeOf m := by
  rw [types_eq_insertAll]
  refine Table.get?_insertAll_eq fun type => ?_
  simp only [List.mem_filterMap, Option.map_eq_some_iff, Prod.mk.injEq]
  constructor
  · rintro ⟨entry, bound, ref', place', rfl, rfl⟩
    obtain ⟨c', hc', m', hm', collected⟩ := mem_boundSlots.1 bound
    obtain ⟨-, member, typed⟩ := entryOf_eq_some collected
    rw [member] at place'
    rw [h.unique c hc c' hc' m hm m' hm' (place.trans place'.symm)]
    exact typed
  · intro typed
    cases collected : f.entryOf c.name m with
    | none =>
      rw [typeOf_eq_none collected] at typed
      cases typed
    | some entry =>
      obtain ⟨-, member, typed'⟩ := entryOf_eq_some collected
      refine ⟨entry, mem_boundSlots.2 ⟨c, hc, m, hm, collected⟩, ref, ?_, rfl, ?_⟩
      · rw [member, place]
      · exact Option.some.inj (typed'.symm.trans typed)

/-- There are no types but those of members. -/
theorem member_of_get?_types {ref : TraitRef} {type : QName}
    (found : f.resolveTypes.2.1.get? ref = some type) :
    ∃ c ∈ f.classes, ∃ m ∈ c.members, m.traitRef = some ref ∧ f.typeOf m = some type := by
  rw [types_eq_insertAll] at found
  obtain ⟨entry, bound, entered⟩ := List.mem_filterMap.1 (Table.mem_of_get?_insertAll found)
  obtain ⟨ref', place, same⟩ := Option.map_eq_some_iff.1 entered
  cases same
  obtain ⟨c, hc, m, hm, collected⟩ := mem_boundSlots.1 bound
  obtain ⟨-, member, typed⟩ := entryOf_eq_some collected
  rw [member] at place
  exact ⟨c, hc, m, hm, place, typed⟩

/-- The names that are left are the declared types of the data slots that have no type. -/
theorem unresolved_eq (f : Frame) : f.resolveTypes.2.2 = f.classes.flatMap fun c =>
  c.members.filterMap fun m => if m.kind.isData && (f.typeOf m).isNone then m.declaredType else none := by
  calc f.resolveTypes.2.2
      = (f.typedSlots.map TypedSlot.declared).filter fun declared => (f.bind declared).isNone := rfl
    _ = _ := by
      simp only [typedSlots, List.map_flatMap, List.filter_flatMap, List.map_filterMap,
        List.filter_filterMap]
      refine List.flatMap_congr fun c _ => List.filterMap_congr fun m _ => ?_
      unfold typeOf
      cases m.kind.isData with
      | false => rfl
      | true =>
        cases m.declaredType with
        | none => rfl
        | some declared =>
          have bound : (declared.candidates.find? f.contains).or (declared.candidates.find? QName.isBuiltin)
              = f.bind declared := rfl
          cases h : f.bind declared <;> simp [Option.filter, bound, h]

theorem mem_unresolved {n : Name} : n ∈ f.resolveTypes.2.2 ↔
    ∃ c ∈ f.classes, ∃ m ∈ c.members, m.kind.isData = true ∧ m.declaredType = some n ∧ f.bind n = none := by
  simp only [unresolved_eq, List.mem_flatMap, List.mem_filterMap]
  refine exists_congr fun c => and_congr_right fun _ => exists_congr fun m => and_congr_right fun _ => ?_
  rw [typeOf]
  cases m.kind.isData with
  | false => simp
  | true =>
    cases m.declaredType with
    | none => simp
    | some declared =>
      change (if (true && (f.bind declared).isNone) = true then some declared else none) = some n ↔ _
      rw [Bool.true_and, Option.ite_none_right_eq_some, Option.isNone_iff_eq_none, and_comm, Option.some_inj]
      exact ⟨fun h => ⟨rfl, h.1, h.1 ▸ h.2⟩, fun h => ⟨h.2.1, h.2.1 ▸ h.2.2⟩⟩

end Frame

end AbcBuild
