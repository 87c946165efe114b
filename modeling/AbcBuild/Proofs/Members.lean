/-
Module: AbcBuild.Proofs.Members
Purpose: What was read for the classes of a block.  Each instance side has its class, whose members are made
  of the traits of both sides, in order, each of the kind of its trait.
Main exports: Resolve.mapM_ok, Resolve.BodyOf, Program.ofFile_ok, Program.traits_resolved
-/
import AbcBuild.Program.Resolve
import AbcBuild.Proofs.Codec
import Mathlib.Data.List.Forall2

namespace AbcBuild

open Abc

namespace Abc

theorem exists_of_forall₂ {α β : Type} {R : α → β → Prop} {items : List α} {results : List β}
    (h : List.Forall₂ R items results) {b : β} (listed : b ∈ results) : ∃ a ∈ items, R a b := by
  induction h with
  | nil => cases listed
  | @cons item result items results first _ ih =>
    rcases List.mem_cons.1 listed with rfl | later
    · exact ⟨item, .head _, first⟩
    · obtain ⟨a, member, related⟩ := ih later
      exact ⟨a, .tail _ member, related⟩

theorem forall_of_forall₂ {α β : Type} {R : α → β → Prop} {P : β → Prop} {items : List α} {results : List β}
    (h : List.Forall₂ R items results) (each : ∀ a b, R a b → P b) : ∀ b ∈ results, P b := by
  intro b listed
  obtain ⟨a, -, related⟩ := exists_of_forall₂ h listed
  exact each a b related

end Abc

namespace Resolve

variable {α β : Type} {file : File} {tags : List (Nat × List Metadata)} {place : Nat}

theorem mapM_ok {read : β → Except DecodeError α} {items : List β} {results : List α}
    (h : items.mapM read = .ok results) : List.Forall₂ (fun item a => read item = .ok a) items results := by
  induction items generalizing results with
  | nil =>
    cases h
    exact .nil
  | cons item rest ih =>
    rw [List.mapM_cons] at h
    obtain ⟨first, found, h⟩ := bind_eq_ok.1 h
    obtain ⟨more, others, same⟩ := bind_eq_ok.1 h
    cases same
    exact .cons found (ih others)

/-! ### Members -/

/-- What is made of the data of a trait is of its kind, and a slot keeps its initializer. -/
inductive BodyOf : TraitData → TraitBody → Prop where
  | slot {isConst : Bool} {number typeName : Nat} {initializer : Option OptionalValue}
      {declared : Option Name} : BodyOf (.slot isConst number typeName initializer)
        (.slot declared initializer isConst)
  | method {kind : MethodKind} {dispatch method : Nat} {params : List ParamDef} {returns : Option Name} :
      BodyOf (.method kind dispatch method) (.method kind params returns)
  | classRef {number index : Nat} : BodyOf (.classRef number index) (.classRef index)
  | function {number method : Nat} {params : List ParamDef} {returns : Option Name} :
      BodyOf (.function number method) (.function params returns)

/-- What is read of a trait is of the kind that its data has. -/
theorem bodyOf_traitDef {info : TraitInfo} {d : TraitDef} (read : traitDef file info = .ok d) :
    BodyOf info.data d.body := by
  obtain ⟨member, -, read⟩ := bind_eq_ok.1 read
  obtain ⟨body, made, read⟩ := bind_eq_ok.1 read
  obtain ⟨tags, -, read⟩ := bind_eq_ok.1 read
  cases read
  cases data : info.data with
  | slot isConst number typeName value =>
    rw [data] at made
    obtain ⟨declared, -, made⟩ := bind_eq_ok.1 made
    cases made
    exact .slot
  | method kind dispatch method =>
    rw [data] at made
    obtain ⟨signature, -, made⟩ := bind_eq_ok.1 made
    cases made
    exact .method
  | classRef number index =>
    rw [data] at made
    cases made
    exact .classRef
  | function number method =>
    rw [data] at made
    obtain ⟨signature, -, made⟩ := bind_eq_ok.1 made
    cases made
    exact .function

/-! ### Classes -/

/-- The class of the instance side at a place. -/
structure ClassOf (file : File) (place : Nat) (info : InstanceInfo) (c : ClassDef) : Prop where
  named : definitionName file.pool info.name = .ok c.name
  superName : name file.pool info.superName = .ok c.superName
  interfaces : ∃ names, info.interfaces.mapM (name file.pool) = .ok names ∧ c.interfaces = names.filterMap id
  flags : c.flags = info.flags
  instanceTraits : info.traits.mapM (traitDef file) = .ok c.instanceTraits
  staticTraits : (file.classes[place]?.elim [] ScopeInfo.traits).mapM (traitDef file) = .ok c.staticTraits

/-- The static side that stands at the place of an instance side. -/
theorem classDef_bind (file : File) (tags : List (Nat × List Metadata)) (place : Nat) (info : InstanceInfo) :
    classDef file tags place info = do
      let className ← definitionName file.pool info.name
      let visible ← isPublic file.pool info.name
      let superName ← name file.pool info.superName
      let interfaces ← info.interfaces.mapM (name file.pool)
      let instanceTraits ← info.traits.mapM (traitDef file)
      let staticTraits ← (file.classes[place]?.elim [] ScopeInfo.traits).mapM (traitDef file)
      return {
        name := className
        isPublic := visible
        superName := superName
        interfaces := interfaces.filterMap id
        flags := info.flags
        metadata := (Table.lookup place tags).getD []
        instanceTraits := instanceTraits
        staticTraits := staticTraits } := by
  rw [classDef]
  cases file.classes[place]? <;> rfl

/-- The class that is read from an instance side is the one of that side, with the tags of its place. -/
theorem classOf_classDef {info : InstanceInfo} {c : ClassDef}
    (read : classDef file tags place info = .ok c) :
    ClassOf file place info c ∧ c.metadata = (Table.lookup place tags).getD [] := by
  rw [classDef_bind] at read
  obtain ⟨className, named, read⟩ := bind_eq_ok.1 read
  obtain ⟨_, -, read⟩ := bind_eq_ok.1 read
  obtain ⟨superName, above, read⟩ := bind_eq_ok.1 read
  obtain ⟨interfaces, listed, read⟩ := bind_eq_ok.1 read
  obtain ⟨instanceTraits, own, read⟩ := bind_eq_ok.1 read
  obtain ⟨staticTraits, static, read⟩ := bind_eq_ok.1 read
  cases read
  exact ⟨⟨named, above, ⟨interfaces, listed, rfl⟩, rfl, own, static⟩, rfl⟩

/-- Classes are read one for each instance side, each with the place of its side. -/
theorem getElem?_classDefs {infos : List InstanceInfo} {classes : List ClassDef}
    (read : classDefs file tags place infos = .ok classes) :
    classes.length = infos.length ∧ ∀ n info, infos[n]? = some info →
      ∃ c, classes[n]? = some c ∧ classDef file tags (place + n) info = .ok c := by
  induction infos generalizing place classes with
  | nil =>
    cases read
    exact ⟨rfl, fun n info held => by cases held⟩
  | cons info rest ih =>
    obtain ⟨first, firstRead, read⟩ := bind_eq_ok.1 read
    obtain ⟨more, restRead, read⟩ := bind_eq_ok.1 read
    cases read
    obtain ⟨length, along⟩ := ih restRead
    refine ⟨congrArg (· + 1) length, ?_⟩
    rintro (_ | n) later held
    · cases held
      exact ⟨first, rfl, firstRead⟩
    · rw [← Nat.add_assoc, Nat.add_right_comm]
      exact along n later held

end Resolve

namespace Program

open Resolve

/-- A program has the classes of its file and the definitions of its scripts. -/
theorem ofFile_ok {file : File} {p : Program} (read : ofFile file = .ok p) :
    ∃ found, scripts file = .ok found ∧ classDefs file found.classTags 0 file.instances = .ok p.classes ∧
      p.topLevel = found.topLevel ∧ p.definitions = found.definitions := by
  obtain ⟨found, scripts, read⟩ := bind_eq_ok.1 read
  obtain ⟨classes, made, read⟩ := bind_eq_ok.1 read
  cases read
  exact ⟨found, scripts, made, rfl, rfl⟩

/-- The traits of both sides of a class. -/
def traitsOf (file : File) (place : Nat) (info : InstanceInfo) : List TraitInfo :=
  info.traits ++ file.classes[place]?.elim [] ScopeInfo.traits

/-- The members of each class are made of the traits of both its sides. -/
theorem traits_resolved {file : File} {p : Program} (read : ofFile file = .ok p) :
    p.classes.length = file.instances.length ∧ ∀ place info, file.instances[place]? = some info →
      ∃ c, p.classes[place]? = some c ∧
        List.Forall₂ (fun t d => traitDef file t = .ok d) (traitsOf file place info) c.traits := by
  obtain ⟨found, -, made, -, -⟩ := ofFile_ok read
  obtain ⟨length, along⟩ := getElem?_classDefs made
  refine ⟨length, fun place info there => ?_⟩
  obtain ⟨c, here, built⟩ := along place info there
  rw [Nat.zero_add] at built
  have sides := (classOf_classDef built).1
  exact ⟨c, here, List.rel_append (mapM_ok sides.instanceTraits) (mapM_ok sides.staticTraits)⟩

end Program

end AbcBuild
