/-
Module: AbcBuild.Proofs.Mirror
Purpose: What the frame of a program knows of its classes while it takes over other frames and binds its
  names: each own slot stands for the last class of its name, and names are bound by what the frame knows at
  that time.
Main exports: Program.Mirrors, Program.Mirrors.placed, Program.Mirrors.resolveTypes,
  Program.members_keep_their_types
-/
import AbcBuild.Proofs.Scope
import AbcBuild.Proofs.SlotTypes
import Mathlib.Data.Option.Basic
import Mathlib.Data.Prod.Basic

namespace AbcBuild

variable {name : QName}

/-! ### Places of classes and members -/

namespace Program

variable {p : Program} {index : Nat} {c : ClassDef} {ref : TraitRef} {d : TraitDef}

theorem mem_indexed {classes : List ClassDef} : (index, c) ∈ indexed classes ↔ classes[index]? = some c := by
  rw [← List.mk_mem_zipIdx_iff_getElem?]
  exact List.mem_map_of_injective Prod.swap_injective (a := (c, index))

@[simp] theorem snd_indexed (classes : List ClassDef) : (indexed classes).map Prod.snd = classes := by
  rw [indexed, List.map_map]
  exact List.zipIdx_map_fst 0 classes

theorem mem_of_mem_indexed {placed : Nat × ClassDef} {classes : List ClassDef}
    (h : placed ∈ indexed classes) :
    placed.2 ∈ classes :=
  List.mem_of_getElem? (mem_indexed.1 h)

theorem mem_placed {classIndex : Nat} {isStatic : Bool} {definitions : List TraitDef} :
    (ref, d) ∈ placed classIndex isStatic definitions ↔
      ref.classIndex = classIndex ∧ ref.isStatic = isStatic ∧ definitions[ref.index]? = some d := by
  simp only [placed, List.mem_map, Prod.exists, Prod.mk.injEq, List.mk_mem_zipIdx_iff_getElem?]
  constructor
  · rintro ⟨d, index, found, rfl, rfl⟩
    exact ⟨rfl, rfl, found⟩
  · rintro ⟨rfl, rfl, found⟩
    exact ⟨d, ref.index, found, rfl, rfl⟩

/-- A place tells the member. -/
theorem mem_members {classIndex : Nat} : (ref, d) ∈ members classIndex c ↔
    ref.classIndex = classIndex ∧ (c.side ref.isStatic)[ref.index]? = some d := by
  rw [members, List.mem_append, mem_placed, mem_placed]
  cases ref.isStatic <;> simp [ClassDef.side]

/-- Members of a program at one place are the same. -/
theorem member_unique {index' : Nat} {c' : ClassDef} {d' : TraitDef} (hc : (index, c) ∈ indexed p.classes)
    (hc' : (index', c') ∈ indexed p.classes) (h : (ref, d) ∈ members index c)
    (h' : (ref, d') ∈ members index' c') :
    d = d' := by
  obtain ⟨rfl, found⟩ := mem_members.1 h
  obtain ⟨rfl, found'⟩ := mem_members.1 h'
  cases (mem_indexed.1 hc).symm.trans (mem_indexed.1 hc')
  exact Option.some.inj (found.symm.trans found')

theorem fst_placed (classIndex : Nat) (isStatic : Bool) (definitions : List TraitDef) :
    (placed classIndex isStatic definitions).map Prod.fst =
      (List.range' 0 definitions.length).map (⟨classIndex, isStatic, ·⟩) := by
  rw [placed, List.map_map, ← List.zipIdx_map_snd, List.map_map]
  rfl

theorem nodup_members (classIndex : Nat) (c : ClassDef) : ((members classIndex c).map Prod.fst).Nodup := by
  have side (isStatic : Bool) (definitions : List TraitDef) :
      ((placed classIndex isStatic definitions).map Prod.fst).Nodup := by
    rw [fst_placed]
    refine List.Nodup.map ?_ List.nodup_range'
    intro i j same
    cases same
    rfl
  rw [members, List.map_append]
  refine List.nodup_append'.2 ⟨side false _, side true _, ?_⟩
  intro ref onInstances onClass
  rw [fst_placed, List.mem_map] at onInstances onClass
  obtain ⟨i, -, rfl⟩ := onInstances
  obtain ⟨j, -, same⟩ := onClass
  cases same

/-- What is made of some items, each under the key of its item, has keys in the order of the items. -/
theorem sublist_filterMap {α β κ : Type} {make : α → Option β} {key : α → κ} {key' : β → κ}
    (same : ∀ a b, make a = some b → key' b = key a) (items : List α) :
    ((items.filterMap make).map key').Sublist (items.map key) := by
  induction items with
  | nil => exact List.Sublist.refl _
  | cons a rest ih =>
    cases made : make a with
    | none =>
      rw [List.filterMap_cons_none made]
      exact ih.cons _
    | some b =>
      rw [List.filterMap_cons_some made, List.map_cons, List.map_cons, same a b made]
      exact ih.cons_cons _

/-- The last class of a qualified name, with its place. -/
def lastOf? (p : Program) (name : QName) : Option (Nat × ClassDef) :=
  Table.lookup name ((indexed p.classes).map fun placed => (placed.2.name, placed)).reverse

theorem mem_of_lastOf? (h : p.lastOf? name = some (index, c)) :
    (index, c) ∈ indexed p.classes ∧ c.name = name := by
  have found := Table.mem_of_lookup h
  rw [List.mem_reverse, List.mem_map] at found
  obtain ⟨placed, hplaced, heq⟩ := found
  cases heq
  exact ⟨hplaced, rfl⟩

/-- If no two classes share a name, each is the last of its own. -/
theorem lastOf?_of_mem (distinct : p.classNames.Nodup) {placed : Nat × ClassDef}
    (h : placed ∈ indexed p.classes) :
    p.lastOf? placed.2.name = some placed := by
  refine Table.lookup_of_mem ?_ (List.mem_reverse.2 (List.mem_map_of_mem h))
  rw [List.map_reverse, List.nodup_reverse, List.map_map]
  rw [classNames, ← snd_indexed p.classes, List.map_map] at distinct
  exact distinct

theorem isSome_lastOf? (p : Program) (listed : c ∈ p.classes) : (p.lastOf? c.name).isSome = true := by
  rw [lastOf?, Table.isSome_lookup]
  rw [← snd_indexed p.classes] at listed
  obtain ⟨placed, member, rfl⟩ := List.mem_map.1 listed
  refine List.mem_map.2 ⟨(placed.2.name, placed), ?_, rfl⟩
  exact List.mem_reverse.2 (List.mem_map_of_mem member)

/-- The last class of those whose names are written alike is the last of its own name. -/
theorem lastOf?_of_lookup {name : String} {classes : List (Nat × ClassDef)}
    (h : Table.lookup name (classes.map fun placed => (placed.2.name.text, placed)) = some (index, c)) :
    Table.lookup c.name (classes.map fun placed => (placed.2.name, placed)) = some (index, c) := by
  induction classes with
  | nil => cases h
  | cons first rest ih =>
    by_cases here : first.2.name.text = name
    · simp only [List.map_cons, Table.lookup, here, if_true, Option.some.injEq] at h
      simp [Table.lookup, h]
    · simp only [List.map_cons, Table.lookup, if_neg here] at h
      have hname : c.name.text = name := by
        have found := Table.mem_of_lookup h
        rw [List.mem_map] at found
        obtain ⟨placed, -, heq⟩ := found
        cases heq
        rfl
      have other : first.2.name ≠ c.name := fun heq => here (heq ▸ hname)
      simp only [List.map_cons, Table.lookup, if_neg other]
      exact ih h

theorem mem_of_lastNamed? {name : String} {placed : Nat × ClassDef} (h : p.lastNamed? name = some placed) :
    placed.2 ∈ p.classes ∧ placed.2.name.text = name := by
  have listed := Table.mem_of_lookup h
  rw [List.mem_reverse, List.mem_map] at listed
  obtain ⟨placed', held, same⟩ := listed
  cases same
  exact ⟨mem_of_mem_indexed held, rfl⟩

theorem lastOf?_of_lastNamed? {name : String} (h : p.lastNamed? name = some (index, c)) :
    p.lastOf? c.name = some (index, c) := by
  unfold lastNamed? at h
  unfold lastOf?
  rw [← List.map_reverse] at h ⊢
  exact lastOf?_of_lookup h

end Program

/-! ### Frames -/

namespace Frame

variable (f : Frame) (names : List QName)

theorem own_importSlots (slots : List ClassSlot) : (f.importSlots slots).1.own = f.own := by
  induction slots generalizing f with
  | nil => rfl
  | cons slot rest ih =>
    rw [importSlots]
    have one : (f.importSlot slot).1.own = f.own := by
      unfold importSlot
      split <;> rfl
    rw [← one]
    exact ih (f.importSlot slot).1

theorem own_importDefinitions : (f.importDefinitions names).own = f.own := by
  induction names generalizing f with
  | nil => rfl
  | cons name rest ih =>
    rw [importDefinitions, ih]
    split <;> rfl

/-- What is taken over never replaces what the unit defines. -/
theorem own_inheritFrom (other : Frame) : (f.inheritFrom other).1.own = f.own := by
  rw [inheritFrom]
  rw [← own_importSlots f (other.own.values ++ other.imported.values)]
  exact own_importDefinitions _ _

/-- A frame that takes over others one after the other. -/
def inheritAll (f : Frame) (others : List Frame) : Frame :=
  others.foldl (fun f other => (f.inheritFrom other).1) f

theorem own_inheritAll (f : Frame) (others : List Frame) : (f.inheritAll others).own = f.own := by
  induction others generalizing f with
  | nil => rfl
  | cons other rest ih => exact (ih (f.inheritFrom other).1).trans (own_inheritFrom f other)

/-- A change to a slot is none to the classes that are known. -/
theorem hasClass_modify (name : QName) (change : ClassSlot → ClassSlot) :
    ({ f with own := f.own.modify name change } : Frame).hasClass = f.hasClass := by
  funext q
  unfold hasClass Table.contains
  rw [Table.get?_modify]
  by_cases here : name = q <;> simp [here]

theorem contains_modify (name : QName) (change : ClassSlot → ClassSlot) :
    ({ f with own := f.own.modify name change } : Frame).contains = f.contains := by
  funext q
  rw [contains, contains, hasClass_modify]

/-- A cleaned frame knows its own classes and all names of definitions. -/
@[simp] theorem contains_clean (q : QName) :
    f.clean.contains q = (f.own.contains q || f.definitions.contains q) := by
  have keys : f.clean.own.keys = f.own.keys := by simp [clean, Table.keys]
  have own : f.clean.own.contains q = f.own.contains q := by
    rw [Bool.eq_iff_iff, Table.contains, Table.contains, Table.isSome_get?, Table.isSome_get?, keys]
  rw [contains, hasClass, own]
  simp [clean, Table.contains, Table.get?, Table.lookup, Table.empty]

@[simp] theorem clean_clean : f.clean.clean = f.clean := by
  simp [clean, ClassSlot.detach]

theorem contains_clean_modify (name : QName) (change : ClassSlot → ClassSlot) :
    ({ f with own := f.own.modify name change } : Frame).clean.contains = f.clean.contains := by
  funext q
  rw [contains_clean, contains_clean, Table.contains, Table.contains, Table.get?_modify]
  by_cases here : name = q <;> simp [here]

section

variable {α : Type} (observe : Frame → α)
  (same : ∀ (f : Frame) (name : QName) (change : ClassSlot → ClassSlot),
    observe { f with own := f.own.modify name change } = observe f)
include same

/-- Binding the inheritance changes nothing but slots. -/
theorem resolveInheritance_keeps : observe (f.resolveInheritance names).1 = observe f := by
  unfold resolveInheritance
  generalize names.filterMap f.bindClass = bindings
  simp only
  induction bindings generalizing f with
  | nil => rfl
  | cons b rest ih => exact (ih (f.applyBinding b)).trans (same ..)

/-- Binding the types of data slots changes nothing but slots. -/
theorem resolveTypes_keeps : observe f.resolveTypes.1 = observe f := by
  unfold resolveTypes
  generalize f.boundSlots = bound
  simp only
  induction bound generalizing f with
  | nil => rfl
  | cons entry rest ih => exact (ih (f.applyType entry.1 entry.2)).trans (same ..)

end

@[simp] theorem contains_resolveInheritance : (f.resolveInheritance names).1.contains = f.contains :=
  f.resolveInheritance_keeps names contains contains_modify

@[simp] theorem contains_resolveTypes : f.resolveTypes.1.contains = f.contains :=
  f.resolveTypes_keeps contains contains_modify

end Frame

/-- Without the type that it is bound to. -/
def MemberSlot.unbound (m : MemberSlot) : MemberSlot := { m with resolvedType := none }

/-- The type that the member at a place is bound to. -/
def ClassSlot.typeAt (slot : ClassSlot) (ref : TraitRef) : Option QName :=
  (slot.members.find? fun m => m.traitRef = some ref).bind MemberSlot.resolvedType

namespace Program

/-- A slot stands for the class at a place. -/
structure SlotOf (index : Nat) (c : ClassDef) (slot : ClassSlot) : Prop where
  name : slot.name = c.name
  superName : slot.superName = c.superName
  members : slot.members.map MemberSlot.unbound = (members index c).filterMap fun m => memberSlot? m.1 m.2

/-- The own slots of a frame stand for the classes of a program, of classes of one name for the last, and
    have a property. -/
structure Mirrors (p : Program) (P : Nat → ClassDef → ClassSlot → Prop) (f : Frame) : Prop where
  distinct : f.own.keys.Nodup
  slots : ∀ name slot, f.own.get? name = some slot →
    ∃ index c, p.lastOf? name = some (index, c) ∧ SlotOf index c slot ∧ P index c slot
  complete : ∀ name placed, p.lastOf? name = some placed → ∃ slot, f.own.get? name = some slot

/-- No member is bound to a type. -/
def Untyped (slot : ClassSlot) : Prop := ∀ m ∈ slot.members, m.resolvedType = none

/-- The supertype is bound by what is known. -/
def SuperIn (known : QName → Bool) (c : ClassDef) (slot : ClassSlot) : Prop :=
  slot.resolvedSuper = c.superName.bind (Name.boundIn known)

/-- The types of data slots are bound by what is known. -/
def TypesIn (known : QName → Bool) (index : Nat) (c : ClassDef) (slot : ClassSlot) : Prop :=
  ∀ ref d declared initializer isConst, (ref, d) ∈ members index c →
    d.body = .slot declared initializer isConst → slot.typeAt ref = declared.bind (Name.boundIn known)

/-- Supertypes are bound by what was known early, types of data slots by what is known late. -/
def BoundIn (early late : QName → Bool) (index : Nat) (c : ClassDef) (slot : ClassSlot) : Prop :=
  SuperIn early c slot ∧ TypesIn late index c slot

variable {p : Program} {f : Frame} {P Q : Nat → ClassDef → ClassSlot → Prop}

theorem Mirrors.imp (h : p.Mirrors P f)
    (weaker : ∀ name index c slot, p.lastOf? name = some (index, c) → SlotOf index c slot → P index c slot →
      Q index c slot) : p.Mirrors Q f where
  distinct := h.distinct
  slots := by
    intro name slot hslot
    obtain ⟨index, c, hlast, hof, holds⟩ := h.slots name slot hslot
    exact ⟨index, c, hlast, hof, weaker name index c slot hlast hof holds⟩
  complete := h.complete

theorem Mirrors.of_own {g : Frame} (h : p.Mirrors P f) (same : g.own = f.own) : p.Mirrors P g where
  distinct := same ▸ h.distinct
  slots := same ▸ h.slots
  complete := same ▸ h.complete

variable {index : Nat} {c : ClassDef} {initializer : Option Abc.OptionalValue} {declared : Option Name}
  {ref : TraitRef}
variable {d : TraitDef} {type : QName} {isConst : Bool}

/-- The slot of the last class of a name. -/
theorem Mirrors.slot (h : p.Mirrors P f) (hlast : p.lastOf? name = some (index, c)) :
    ∃ slot, f.own.get? name = some slot ∧ f.lookup? name = some slot ∧ SlotOf index c slot ∧
      P index c slot := by
  obtain ⟨slot, hslot⟩ := h.complete name (index, c) hlast
  obtain ⟨index', c', hlast', hof, holds⟩ := h.slots name slot hslot
  rw [hlast] at hlast'
  cases hlast'
  exact ⟨slot, hslot, by rw [Frame.lookup?, hslot, Option.some_or], hof, holds⟩

theorem memberSlot?_eq_some {m : MemberSlot} (h : memberSlot? ref d = some m) :
    m.traitRef = some ref ∧ m.resolvedType = none ∧
      (m.kind.isData = true → ∃ initializer isConst, d.body = .slot m.declaredType initializer isConst) := by
  unfold memberSlot? at h
  split at h
  next declared initializer isConst body =>
    cases h
    exact ⟨rfl, rfl, fun _ => ⟨initializer, isConst, body⟩⟩
  next =>
    cases h
    exact ⟨rfl, rfl, fun data => by cases data⟩
  next => cases h
  next => cases h

theorem memberSlot?_of_slot (ref : TraitRef) (h : d.body = .slot declared initializer isConst) :
    ∃ m, memberSlot? ref d = some m ∧ m.kind.isData = true ∧ m.declaredType = declared := by
  unfold memberSlot?
  rw [h]
  refine ⟨_, rfl, ?_, rfl⟩
  cases isConst <;> rfl

theorem slotOf_classSlot (index : Nat) (c : ClassDef) : SlotOf index c (classSlot index c) where
  name := rfl
  superName := rfl
  members := by
    rw [classSlot, List.map_filterMap]
    refine List.filterMap_congr fun m _ => ?_
    obtain ⟨ref, d⟩ := m
    cases hslot : memberSlot? ref d with
    | none => simp [hslot]
    | some slot =>
      obtain ⟨-, fresh, -⟩ := memberSlot?_eq_some hslot
      simp [hslot, MemberSlot.unbound, ← fresh]

theorem untyped_classSlot (index : Nat) (c : ClassDef) : Untyped (classSlot index c) := by
  intro m listed
  obtain ⟨⟨ref, d⟩, -, made⟩ := List.mem_filterMap.1 listed
  exact (memberSlot?_eq_some made).2.1

theorem own_foldl_insertClass (f : Frame) (slots : List ClassSlot) :
    (slots.foldl Frame.insertClass f).own = f.own.insertAll (slots.map fun slot => (slot.name, slot)) := by
  induction slots generalizing f with
  | nil => rfl
  | cons slot rest ih => exact ih (f.insertClass slot)

theorem own_foldl_insertDefinition (f : Frame) (names : List QName) :
    (names.foldl Frame.insertDefinition f).own = f.own := by
  induction names generalizing f with
  | nil => rfl
  | cons name rest ih =>
    rw [List.foldl_cons, ih]
    unfold Frame.insertDefinition
    split <;> rfl

theorem own_frame (p : Program) : p.frame.own =
    Table.empty.insertAll ((indexed p.classes).map fun placed =>
      (placed.2.name, classSlot placed.1 placed.2)) := by
  rw [frame, own_foldl_insertDefinition, own_foldl_insertClass, List.map_map]
  rfl

@[simp] theorem get?_own_frame (p : Program) (name : QName) :
    p.frame.own.get? name = (p.lastOf? name).map fun placed => classSlot placed.1 placed.2 := by
  have slots : ((indexed p.classes).map fun placed => (placed.2.name, classSlot placed.1 placed.2)).reverse
      = (((indexed p.classes).map fun placed => (placed.2.name, placed)).reverse).map
          fun entry => (entry.1, classSlot entry.2.1 entry.2.2) := by
    rw [List.map_reverse, List.map_map]
    rfl
  rw [own_frame, Table.get?_insertAll, slots]
  rw [Table.lookup_map name fun _ (placed : Nat × ClassDef) => classSlot placed.1 placed.2]
  exact Option.or_none

/-- The frame of a program mirrors it. -/
theorem mirrors_frame (p : Program) : p.Mirrors (fun _ _ => Untyped) p.frame where
  distinct := by
    rw [own_frame]
    exact Table.nodup_keys_insertAll (t := .empty) List.nodup_nil _
  slots := by
    intro name slot hslot
    rw [get?_own_frame, Option.map_eq_some_iff] at hslot
    obtain ⟨⟨index, c⟩, hlast, rfl⟩ := hslot
    exact ⟨index, c, hlast, slotOf_classSlot index c, untyped_classSlot index c⟩
  complete := by
    intro name placed hlast
    exact ⟨_, by rw [get?_own_frame, hlast]; rfl⟩

/-- A change to one own slot that keeps what it stands for. -/
theorem Mirrors.modify (h : p.Mirrors P f) (name : QName) (change : ClassSlot → ClassSlot)
    (here : ∀ index c slot, p.lastOf? name = some (index, c) → SlotOf index c slot → P index c slot →
      SlotOf index c (change slot) ∧ Q index c (change slot))
    (others : ∀ index c slot, c.name ≠ name → P index c slot → Q index c slot) :
    p.Mirrors Q { f with own := f.own.modify name change } where
  distinct := by
    rw [Table.keys_modify]
    exact h.distinct
  slots := by
    intro name' slot hslot
    rw [Table.get?_modify] at hslot
    split at hslot
    next same =>
      subst same
      obtain ⟨old, hold, rfl⟩ := Option.map_eq_some_iff.1 hslot
      obtain ⟨index, c, hlast, hof, holds⟩ := h.slots name old hold
      exact ⟨index, c, hlast, here index c old hlast hof holds⟩
    next other =>
      obtain ⟨index, c, hlast, hof, holds⟩ := h.slots name' slot hslot
      have apart : c.name ≠ name := fun same => other (same.symm.trans (mem_of_lastOf? hlast).2)
      exact ⟨index, c, hlast, hof, others index c slot apart holds⟩
  complete := by
    intro name' placed hlast
    obtain ⟨slot, hslot⟩ := h.complete name' placed hlast
    rw [Table.get?_modify, hslot]
    split <;> exact ⟨_, rfl⟩

/-! ### Inheritance -/

/-- A binding binds the supertype of the class that it names by what is known. -/
def Binds (p : Program) (known : QName → Bool) (b : Frame.Binding) : Prop :=
  ∀ index c, p.lastOf? b.name = some (index, c) → b.superName = c.superName.bind (Name.boundIn known)

theorem Mirrors.binds_bindClass (h : p.Mirrors P f) {b : Frame.Binding}
    (hb : f.bindClass name = some b) : p.Binds f.contains b := by
  obtain ⟨slot, hslot, rfl⟩ := Option.map_eq_some_iff.1 hb
  intro index c hlast
  obtain ⟨own, -, hown, hof, -⟩ := h.slot hlast
  rw [hslot] at hown
  cases hown
  rw [← hof.superName]
  rfl

/-- What holds while bindings are entered: the classes that are done have their supertypes. -/
theorem Mirrors.applyBindings {known : QName → Bool} {bindings : List Frame.Binding}
    (bound : ∀ b ∈ bindings, p.Binds known b) (done : List QName)
    (h : p.Mirrors (fun _ c slot => Untyped slot ∧ (c.name ∈ done → SuperIn known c slot)) f) :
    p.Mirrors (fun _ c slot => Untyped slot ∧
      (c.name ∈ done ++ bindings.map Frame.Binding.name → SuperIn known c slot))
      (bindings.foldl Frame.applyBinding f) := by
  induction bindings generalizing f done with
  | nil => simpa using h
  | cons b rest ih =>
    have first : p.Mirrors (fun _ c slot => Untyped slot ∧
        (c.name ∈ done ++ [b.name] → SuperIn known c slot)) (f.applyBinding b) := by
      refine h.modify b.name _ (fun index c slot hlast hof holds => ?_) fun index c slot other holds => ?_
      · refine ⟨⟨hof.name, hof.superName, hof.members⟩, holds.1, fun _ => ?_⟩
        exact bound b (.head _) index c hlast
      · refine ⟨holds.1, fun listed => holds.2 ((List.mem_append.1 listed).resolve_right fun here => ?_)⟩
        exact other (List.mem_singleton.1 here)
    rw [List.foldl_cons, List.map_cons, List.append_cons]
    exact ih (fun b hb => bound b (.tail _ hb)) _ first

theorem mem_classNames_of_lastOf? (h : p.lastOf? name = some (index, c)) : name ∈ p.classNames := by
  obtain ⟨placed, rfl⟩ := mem_of_lastOf? h
  exact List.mem_map_of_mem (mem_of_mem_indexed placed)

/-- The supertypes are bound by what the frame knows. -/
theorem Mirrors.resolveInheritance (h : p.Mirrors (fun _ _ => Untyped) f) :
    p.Mirrors (fun _ c slot => Untyped slot ∧ SuperIn f.contains c slot)
      (f.resolveInheritance p.classNames).1 := by
  have bound : ∀ b ∈ p.classNames.filterMap f.bindClass, p.Binds f.contains b := by
    intro b hb
    obtain ⟨name, -, hname⟩ := List.mem_filterMap.1 hb
    exact h.binds_bindClass hname
  have start : p.Mirrors (fun _ c slot => Untyped slot ∧ (c.name ∈ [] → SuperIn f.contains c slot)) f :=
    h.imp fun _ _ _ _ _ _ holds => ⟨holds, fun none => (List.not_mem_nil none).elim⟩
  refine (start.applyBindings bound []).imp fun name index c slot hlast _ holds => ⟨holds.1, holds.2 ?_⟩
  obtain ⟨own, -, hown, -, -⟩ := h.slot hlast
  rw [(mem_of_lastOf? hlast).2]
  exact List.mem_map.2 ⟨_, List.mem_filterMap.2 ⟨name, mem_classNames_of_lastOf? hlast, by
    rw [Frame.bindClass, hown, Option.map_some]⟩, rfl⟩

/-! ### Types -/

/-- The members of a slot stand for members of its class. -/
theorem SlotOf.member {slot : ClassSlot} (h : SlotOf index c slot) {m : MemberSlot} (hm : m ∈ slot.members) :
    ∃ ref d, (ref, d) ∈ Program.members index c ∧ memberSlot? ref d = some m.unbound := by
  have found : m.unbound ∈ slot.members.map MemberSlot.unbound := List.mem_map_of_mem hm
  rw [h.members] at found
  obtain ⟨⟨ref, d⟩, hmember, hslot⟩ := List.mem_filterMap.1 found
  exact ⟨ref, d, hmember, hslot⟩

/-- Each slot of a class stands in its slot. -/
theorem SlotOf.slot {slot : ClassSlot} (h : SlotOf index c slot)
    (hmember : (ref, d) ∈ Program.members index c) (hbody : d.body = .slot declared initializer isConst) :
    ∃ m ∈ slot.members, m.traitRef = some ref ∧ m.kind.isData = true ∧ m.declaredType = declared := by
  obtain ⟨made, hmade, data, hdeclared⟩ := memberSlot?_of_slot ref hbody
  have found : made ∈ slot.members.map MemberSlot.unbound := by
    rw [h.members]
    exact List.mem_filterMap.2 ⟨(ref, d), hmember, hmade⟩
  obtain ⟨m, hm, rfl⟩ := List.mem_map.1 found
  exact ⟨m, hm, (memberSlot?_eq_some hmade).1, data, hdeclared⟩

theorem Mirrors.mem_classes (h : p.Mirrors P f) {slot : ClassSlot} (hslot : slot ∈ f.classes) :
    ∃ index c, p.lastOf? slot.name = some (index, c) ∧ SlotOf index c slot ∧ P index c slot := by
  obtain ⟨⟨name, slot'⟩, hentry, rfl⟩ := List.mem_map.1 hslot
  obtain ⟨index, c, hlast, hof, holds⟩ := h.slots name slot' ((Table.get?_eq_some_iff h.distinct).2 hentry)
  have hname : slot'.name = name := hof.name.trans (mem_of_lastOf? hlast).2
  exact ⟨index, c, hname ▸ hlast, hof, holds⟩

theorem fresh_classSlot (index : Nat) (c : ClassDef) : Frame.Fresh (classSlot index c).members where
  apart := by
    have places : ((classSlot index c).members.map MemberSlot.traitRef).Sublist
        ((members index c).map fun m => some m.1) :=
      sublist_filterMap (fun m slot made => (memberSlot?_eq_some made).1) (members index c)
    have distinct : ((members index c).map fun m => some m.1).Nodup := by
      have once := (nodup_members index c).map (Option.some_injective TraitRef)
      rw [List.map_map] at once
      exact once
    exact List.pairwise_map.1 (distinct.sublist places)
  placed := by
    intro slot listed
    obtain ⟨⟨ref, d⟩, -, made⟩ := List.mem_filterMap.1 listed
    rw [(memberSlot?_eq_some made).1]
    rfl
  untyped := untyped_classSlot index c

/-- Before types are entered, the members of a slot are those of its class. -/
theorem SlotOf.members_eq {slot : ClassSlot} (h : SlotOf index c slot) (untyped : Untyped slot) :
    slot.members = (classSlot index c).members := by
  have same : slot.members.map MemberSlot.unbound = slot.members := by
    refine (List.map_congr_left fun m listed => ?_).trans (List.map_id _)
    rw [MemberSlot.unbound, ← untyped m listed]
    rfl
  rw [← same]
  exact h.members

/-- Before types are entered, the members of a frame stand at places of their own. -/
theorem Mirrors.placed (h : p.Mirrors P f) (untyped : ∀ index c slot, P index c slot → Untyped slot) :
    f.Placed where
  distinct := h.distinct
  named := by
    intro entry listed
    obtain ⟨index, c, last, slotOf, -⟩ :=
      h.slots entry.1 entry.2 ((Table.get?_eq_some_iff h.distinct).2 listed)
    exact slotOf.name.trans (mem_of_lastOf? last).2
  fresh := by
    intro slot listed
    obtain ⟨index, c, -, slotOf, holds⟩ := h.mem_classes listed
    rw [slotOf.members_eq (untyped _ _ _ holds)]
    exact fresh_classSlot index c
  unique := by
    intro slot listed slot' listed' m hm m' hm' same
    obtain ⟨index, c, last, slotOf, holds⟩ := h.mem_classes listed
    obtain ⟨index', c', last', slotOf', holds'⟩ := h.mem_classes listed'
    rw [slotOf.members_eq (untyped _ _ _ holds)] at hm
    rw [slotOf'.members_eq (untyped _ _ _ holds')] at hm'
    obtain ⟨⟨ref, d⟩, member, made⟩ := List.mem_filterMap.1 hm
    obtain ⟨⟨ref', d'⟩, member', made'⟩ := List.mem_filterMap.1 hm'
    rw [(memberSlot?_eq_some made).1, (memberSlot?_eq_some made').1, Option.some.injEq] at same
    subst same
    cases member_unique (mem_of_lastOf? last).1 (mem_of_lastOf? last').1 member member'
    exact Option.some.inj (made.symm.trans made')

/-- The type of a data slot is what its declared type is bound to. -/
theorem SlotOf.typeOf {slot : ClassSlot} (h : SlotOf index c slot)
    (hmember : (ref, d) ∈ Program.members index c) (hbody : d.body = .slot declared initializer isConst)
    (f : Frame) :
    ∃ m ∈ slot.members, m.traitRef = some ref ∧ f.typeOf m = declared.bind (Name.boundIn f.contains) := by
  obtain ⟨m, hm, place, data, type⟩ := h.slot hmember hbody
  exact ⟨m, hm, place, by rw [Frame.typeOf, if_pos data, type]; rfl⟩

/-- A name that is left is the declared type of a data slot, and the frame does not know it. -/
theorem Mirrors.of_mem_unresolved (h : p.Mirrors P f) {n : Name} (left : n ∈ f.resolveTypes.2.2) :
    ∃ index c ref d initializer isConst, p.lastOf? c.name = some (index, c) ∧ (ref, d) ∈ members index c ∧
      d.body = .slot (some n) initializer isConst ∧ n.boundIn f.contains = none := by
  obtain ⟨slot, stored, m, held, data, type, unknown⟩ := Frame.mem_unresolved.1 left
  obtain ⟨index, c, last, slotOf, -⟩ := h.mem_classes stored
  obtain ⟨ref, d, member, made⟩ := slotOf.member held
  obtain ⟨initializer, isConst, body⟩ := (memberSlot?_eq_some made).2.2 data
  exact ⟨index, c, ref, d, initializer, isConst, slotOf.name ▸ last, member, type ▸ body, unknown⟩

/-- The types of data slots are bound by what the frame knows. -/
theorem Mirrors.resolveTypes {early : QName → Bool}
    (h : p.Mirrors (fun _ c slot => Untyped slot ∧ SuperIn early c slot) f) :
    p.Mirrors (BoundIn early f.contains) f.resolveTypes.1 := by
  have placed : f.Placed := h.placed fun _ _ _ holds => holds.1
  have get (name : QName) : f.resolveTypes.1.own.get? name =
      (f.own.get? name).map fun slot => { slot with members := slot.members.map f.enterType } := by
    rw [placed.resolveTypes]
    exact Table.lookup_map name (fun _ (slot : ClassSlot) =>
      { slot with members := slot.members.map f.enterType }) _
  refine ⟨?_, fun name slot found => ?_, fun name last held => ?_⟩
  · rw [placed.resolveTypes]
    rw [Table.keys, List.map_map]
    exact h.distinct
  · rw [get, Option.map_eq_some_iff] at found
    obtain ⟨slot, found, rfl⟩ := found
    obtain ⟨index, c, last, slotOf, untyped, super⟩ := h.slots name slot found
    refine ⟨index, c, last, ⟨slotOf.name, slotOf.superName, ?_⟩, super, ?_⟩
    · rw [← slotOf.members, List.map_map]
      rfl
    · intro ref d declared initializer isConst member body
      obtain ⟨m, hm, place, typed⟩ := slotOf.typeOf member body f
      have stored : slot ∈ f.classes := List.mem_map_of_mem (f := Prod.snd) (Table.mem_of_get? found)
      -- no other member stands at the place
      have only : slot.members.find? (fun m => m.traitRef = some ref) = some m := by
        have held : (slot.members.find? fun m => m.traitRef = some ref).isSome = true :=
          List.find?_isSome.2 ⟨m, hm, decide_eq_true place⟩
        obtain ⟨m', first⟩ := Option.isSome_iff_exists.1 held
        have there : m'.traitRef = some ref := by simpa using List.find?_some first
        rw [first, placed.unique slot stored slot stored m' (List.mem_of_find?_eq_some first) m hm
          (there.trans place.symm)]
      rw [← typed, ClassSlot.typeAt, List.find?_map]
      exact congrArg (fun found => (Option.map f.enterType found).bind MemberSlot.resolvedType) only
  · obtain ⟨slot, found⟩ := h.complete name last held
    rw [get, found]
    exact ⟨_, rfl⟩

/-- The types of data slots, by their places, are bound by what is known. -/
def TypesOf (p : Program) (known : QName → Bool) (types : SlotTypes) : Prop :=
  ∀ name index c, p.lastOf? name = some (index, c) → ∀ ref d declared initializer isConst,
    (ref, d) ∈ members index c → d.body = .slot declared initializer isConst →
      types.get? ref = declared.bind (Name.boundIn known)

theorem Mirrors.typesOf (h : p.Mirrors P f) (untyped : ∀ index c slot, P index c slot → Untyped slot) :
    p.TypesOf f.contains f.resolveTypes.2.1 := by
  intro name index c last ref d declared initializer isConst member body
  obtain ⟨slot, found, -, slotOf, -⟩ := h.slot last
  obtain ⟨m, hm, place, typed⟩ := slotOf.typeOf member body f
  rw [(h.placed untyped).get?_types (List.mem_map_of_mem (f := Prod.snd) (Table.mem_of_get? found)) hm place,
    typed]

/-- Each member keeps its own type, whatever frames the frame of a program took over.  A member has the type
    that its data slot is bound to, in the frame and at its place, or none; no other place has a type;
    nothing else in the frame changes; and the names that are returned are the declared types of the data
    slots that are not bound, in order. -/
theorem members_keep_their_types (p : Program) (others : List Frame) :
    let f := p.frame.inheritAll others
    f.resolveTypes.1 = { f with own := ⟨f.own.entries.map fun entry => (entry.1, { entry.2 with
        members := entry.2.members.map fun m => { m with resolvedType := f.typeOf m } })⟩ } ∧
      (∀ c ∈ f.classes, ∀ m ∈ c.members,
        ∃ ref, m.traitRef = some ref ∧ f.resolveTypes.2.1.get? ref = f.typeOf m) ∧
      (∀ ref type, f.resolveTypes.2.1.get? ref = some type →
        ∃ c ∈ f.classes, ∃ m ∈ c.members, m.traitRef = some ref ∧ f.typeOf m = some type) ∧
      f.resolveTypes.2.2 = f.classes.flatMap fun c =>
        c.members.filterMap fun m => if m.kind.isData && (f.typeOf m).isNone then m.declaredType
          else none := by
  intro f
  have placed : f.Placed := (p.mirrors_frame.of_own (p.frame.own_inheritAll others)).placed fun _ _ _ => id
  refine ⟨placed.resolveTypes, ?_, fun _ _ => Frame.member_of_get?_types, f.unresolved_eq⟩
  intro c hc m hm
  obtain ⟨ref, place⟩ := Option.isSome_iff_exists.1 ((placed.fresh c hc).placed m hm)
  exact ⟨ref, place, placed.get?_types hc hm place⟩

end Program

end AbcBuild
