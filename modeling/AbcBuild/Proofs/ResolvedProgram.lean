/-
Module: AbcBuild.Proofs.ResolvedProgram
Purpose: Resolving the names of a whole block.  It fails exactly where an index that has to be followed is
  out of range, and says which.  Otherwise the program has a class for each instance side, the names of all
  traits of scripts, those of them that are no classes, and for each class the tags of the last trait that
  refers to it.
Main exports: Resolve.TagsOf, Resolve.Scripts.Tells, Program.consults_ofFile,
  Program.resolved_unless_dangling
-/
import AbcBuild.Proofs.Readings

namespace AbcBuild

open Abc

namespace Resolve

open Abc.ConstantPool (NameFollows)

variable {file : File}

/-! ### Scripts -/

/-- The tags of a class are those of the last trait that refers to it, if there is one. -/
structure TagsOf (file : File) (traits : List TraitInfo) (place : Nat) (tags : List Metadata) : Prop where
  last : ∀ before info after, traits = before ++ info :: after → info.classIndex? = some place →
    (∀ later ∈ after, later.classIndex? ≠ some place) → info.metadata.mapM (metadataTag file) = .ok tags
  untold : (∀ info ∈ traits, info.classIndex? ≠ some place) → tags = []

/-- What was found in some traits: the names of all, the definitions of those that are no classes, and the
    tags of each class. -/
structure Scripts.Tells (file : File) (traits : List TraitInfo) (found : Scripts) : Prop where
  names : List.Forall₂ (fun info q => definitionName file.pool info.name = .ok q) traits found.topLevel
  definitions : List.Forall₂
    (fun info d => definitionName file.pool info.name = .ok d.1 ∧ traitDef file info = .ok d.2)
    (traits.filter fun info => info.classIndex? = none) found.definitions
  tagged : ∀ place, TagsOf file traits place ((Table.lookup place found.classTags).getD [])

variable {traits : List TraitInfo} {found : Scripts} {tags : List (Nat × List Metadata)} {place : Nat}
variable {info : TraitInfo}

/-- The last of some traits stands apart from the others. -/
theorem append_singleton_split {before after : List TraitInfo} {other : TraitInfo}
    (whole : traits ++ [info] = before ++ other :: after) :
    (after = [] ∧ other = info) ∨ ∃ after', after = after' ++ [info] ∧
    traits = before ++ other :: after' := by
  rcases List.eq_nil_or_concat' after with rfl | ⟨after', last, rfl⟩
  · obtain ⟨-, same⟩ := List.append_inj' whole rfl
    exact .inl ⟨rfl, (List.singleton_inj.1 same).symm⟩
  · rw [← List.cons_append, ← List.append_assoc] at whole
    obtain ⟨same, last⟩ := List.append_inj' whole rfl
    exact .inr ⟨after', by rw [List.singleton_inj.1 last], same⟩

theorem TagsOf.replace {tags : List Metadata} (refers : info.classIndex? = some place)
    (read : info.metadata.mapM (metadataTag file) = .ok tags) :
    TagsOf file (traits ++ [info]) place tags where
  last := by
    intro before other after whole _ later
    rcases append_singleton_split whole with ⟨-, rfl⟩ | ⟨after', rfl, -⟩
    · exact read
    · exact absurd refers (later info (by simp))
  untold none := absurd refers (none info (by simp))

theorem TagsOf.keep {tags : List Metadata} (h : TagsOf file traits place tags)
    (other : info.classIndex? ≠ some place) :
    TagsOf file (traits ++ [info]) place tags where
  last := by
    intro before last after whole refers later
    rcases append_singleton_split whole with ⟨-, rfl⟩ | ⟨after', rfl, part⟩
    · exact absurd refers other
    · exact h.last before last after' part refers fun info member =>
        later info (List.mem_append_left _ member)
  untold none := h.untold fun info member => none info (List.mem_append_left _ member)

/-- A trait of a class adds its name, and its tags to the class. -/
theorem scriptTrait_classRef {index : Nat} (refers : info.classIndex? = some index) :
    scriptTrait file found info = do
      let name ← definitionName file.pool info.name
      let _ ← entry .instances file.instances index
      let tags ← info.metadata.mapM (metadataTag file)
      return { found with
        topLevel := found.topLevel ++ [name]
        classTags := (index, tags) :: found.classTags } := by
  rw [TraitInfo.classIndex?] at refers
  split at refers
  next data =>
    cases refers
    rw [scriptTrait, data]
  next => cases refers

/-- Any other trait adds its name and its definition. -/
theorem scriptTrait_definition (other : info.classIndex? = none) :
    scriptTrait file found info = do
      let name ← definitionName file.pool info.name
      let definition ← traitDef file info
      return { found with
        topLevel := found.topLevel ++ [name]
        definitions := found.definitions ++ [(name, definition)] } := by
  rw [TraitInfo.classIndex?] at other
  split at other
  next => cases other
  next absent =>
    rw [scriptTrait]
    cases data : info.data with
    | classRef slot index => exact absurd data (absent slot index)
    | slot | method | function => rfl

theorem Scripts.Tells.step {found' : Scripts} (h : Tells file traits found)
    (read : scriptTrait file found info = .ok found') : Tells file (traits ++ [info]) found' := by
  cases refers : info.classIndex? with
  | some index =>
    rw [scriptTrait_classRef refers] at read
    obtain ⟨name, named, read⟩ := bind_eq_ok.1 read
    obtain ⟨_, -, read⟩ := bind_eq_ok.1 read
    obtain ⟨tags, tagsRead, read⟩ := bind_eq_ok.1 read
    cases read
    refine ⟨List.rel_append h.names (.cons named .nil), ?_, fun place => ?_⟩
    · rw [List.filter_append, List.filter_cons_of_neg (by simp [refers]), List.filter_nil, List.append_nil]
      exact h.definitions
    · rw [Table.lookup]
      split
      next here => exact .replace (here ▸ refers) tagsRead
      next other =>
        exact (h.tagged place).keep fun same => other (Option.some_inj.1 (refers.symm.trans same))
  | none =>
    rw [scriptTrait_definition refers] at read
    obtain ⟨name, named, read⟩ := bind_eq_ok.1 read
    obtain ⟨definition, defined, read⟩ := bind_eq_ok.1 read
    cases read
    refine ⟨List.rel_append h.names (.cons named .nil), ?_, fun place =>
      (h.tagged place).keep (by simp [refers])⟩
    rw [List.filter_append, List.filter_cons_of_pos (by simp [refers]), List.filter_nil]
    exact List.rel_append h.definitions (.cons ⟨named, defined⟩ .nil)

theorem Scripts.Tells.run {done : List TraitInfo} {found' : Scripts} (h : Tells file done found)
    (read : traits.foldlM (scriptTrait file) found = .ok found') : Tells file (done ++ traits) found' := by
  induction traits generalizing done found with
  | nil =>
    cases read
    rw [List.append_nil]
    exact h
  | cons info rest ih =>
    rw [List.foldlM_cons] at read
    obtain ⟨next, first, read⟩ := bind_eq_ok.1 read
    rw [List.append_cons]
    exact ih (h.step first) read

theorem tells_scripts (read : scripts file = .ok found) :
    found.Tells file (file.scripts.flatMap ScopeInfo.traits) := by
  have start : Scripts.Tells file [] {} :=
    ⟨.nil, .nil, fun place => ⟨fun before info after split => by simp at split, fun _ => rfl⟩⟩
  exact start.run read

theorem consults_scriptTrait (acyclic : file.pool.Acyclic) (found : Scripts) (info : TraitInfo) :
    Consults file (file.ScriptFollows info) (scriptTrait file found info) := by
  cases refers : info.classIndex? with
  | some index =>
    rw [scriptTrait_classRef refers]
    refine .bind (consults_definitionName acyclic _) .name fun _ _ named => ?_
    refine .one (.item rfl rfl) (.classRef refers) fun _ _ there => ?_
    refine .bind (.mapM fun tag _ => consults_metadataTag tag) (fun ⟨_, listed, inner⟩ =>
      .tag refers listed inner) fun _ _ tags => .ok fun follows => ?_
    cases follows with
    | name inner => exact named inner
    | classRef refers' =>
      cases refers.symm.trans refers'
      exact there
    | tag _ listed inner => exact tags ⟨_, listed, inner⟩
    | definition other => cases refers.symm.trans other
  | none =>
    rw [scriptTrait_definition refers]
    refine .bind (consults_definitionName acyclic _) .name fun _ _ named => ?_
    refine .bind (consults_traitDef acyclic info) (.definition refers) fun _ _ defined =>
      .ok fun follows => ?_
    cases follows with
    | name inner => exact named inner
    | classRef refers' | tag refers' => cases refers.symm.trans refers'
    | definition _ inner => exact defined inner

theorem consults_scripts (acyclic : file.pool.Acyclic) :
    Consults file (fun table index => ∃ info ∈ file.scripts.flatMap ScopeInfo.traits,
      file.ScriptFollows info table index) (scripts file) := by
  unfold scripts
  generalize ({} : Scripts) = found, file.scripts.flatMap ScopeInfo.traits = traits
  induction traits generalizing found with
  | nil => exact .ok fun ⟨_, member, _⟩ => (List.not_mem_nil member).elim
  | cons info rest ih =>
    rw [List.foldlM_cons]
    refine .bind (consults_scriptTrait acyclic found info) (fun inner => ⟨info, (.head _), inner⟩)
      fun next _ first => ?_
    rw [← bind_pure (rest.foldlM (scriptTrait file) next)]
    refine .bind (ih next) (fun ⟨other, member, inner⟩ => ⟨other, .tail _ member, inner⟩)
      fun _ _ later => .ok ?_
    rintro table index ⟨other, member, inner⟩
    rcases List.mem_cons.1 member with rfl | member
    · exact first inner
    · exact later ⟨other, member, inner⟩

/-! ### Classes -/

/-- The name of a class is read once more, for its visibility. -/
theorem consults_isPublic {index : Nat}
    (known : ∀ {table target}, NameFollows file.pool index table target → file.Has table target) :
    Consults file (fun table target => Only .multiname index table target ∨
      NameFollows file.pool index table target) (isPublic file.pool index) := by
  refine .one (.constant rfl rfl) (.inl ⟨rfl, rfl⟩) fun info here self => ?_
  have all {table target} :
      Only .multiname index table target ∨ NameFollows file.pool index table target →
        file.Has table target := by
    rintro (⟨rfl, rfl⟩ | inner)
    · exact self
    · exact known inner
  cases info with
  | qname attr space name => exact .one (.constant rfl rfl) (.inr (.space here .self)) fun _ _ _ => .ok all
  | _ => exact .ok all

/-- The indices of both sides of a class. -/
def ClassFollows (file : File) (place : Nat) (info : InstanceInfo) (table : TableKind) (target : Nat) :
    Prop :=
  file.InstanceFollows info table target ∨
    ∃ trait ∈ file.classes[place]?.elim [] ScopeInfo.traits, file.TraitFollows trait table target

theorem consults_classDef (acyclic : file.pool.Acyclic) (place : Nat) (info : InstanceInfo) :
    Consults file (ClassFollows file place info) (classDef file tags place info) := by
  rw [classDef_bind]
  refine .bind (consults_definitionName acyclic _) (fun inner => .inl (.name inner)) fun _ _ named => ?_
  refine .bind (consults_isPublic named) (fun inner => .inl ?_) fun _ _ shown => ?_
  · obtain ⟨rfl, rfl⟩ | inner := inner
    · exact .self
    · exact .name inner
  refine .bind (consults_name acyclic _) (fun inner => .inl (.superName inner)) fun _ _ above => ?_
  refine .bind (.mapM fun index _ => consults_name acyclic index)
    (fun ⟨_, listed, inner⟩ => .inl (.interface listed inner)) fun _ _ interfaces => ?_
  refine .bind (.mapM fun trait _ => consults_traitDef acyclic trait)
    (fun ⟨_, listed, inner⟩ => .inl (.trait listed inner)) fun _ _ own => ?_
  refine .bind (.mapM fun trait _ => consults_traitDef acyclic trait) .inr fun _ _ static => .ok ?_
  rintro table target (follows | inner)
  · cases follows with
    | self => exact shown (.inl ⟨rfl, rfl⟩)
    | name inner => exact named inner
    | superName inner => exact above inner
    | interface listed inner => exact interfaces ⟨_, listed, inner⟩
    | trait listed inner => exact own ⟨_, listed, inner⟩
  · exact static inner

end Resolve

namespace Program

open Resolve

theorem consults_ofFile {file : File} (acyclic : file.pool.Acyclic) :
    Consults file file.Follows (ofFile file) := by
  refine .bind (consults_scripts acyclic) (fun ⟨info, member, inner⟩ => ?_) fun found _ scripts => ?_
  · obtain ⟨scope, listed, member⟩ := List.mem_flatMap.1 member
    exact .script listed member inner
  refine .bind (.along (W := ClassFollows file) (classDefs file found.classTags) (fun _ => rfl)
    (fun _ _ _ => rfl) fun place info _ => consults_classDef acyclic (0 + place) info) ?_ fun _ _ classes =>
    .ok fun follows => ?_
  · rintro table target ⟨place, info, there, inner | ⟨trait, member, inner⟩⟩
    · exact .object (List.mem_of_getElem? there) inner
    rw [Nat.zero_add] at member
    cases found : file.classes[place]? with
    | none =>
      rw [found] at member
      cases member
    | some scope =>
      rw [found] at member
      exact .static there found member inner
  cases follows with
  | script listed member inner => exact scripts ⟨_, List.mem_flatMap.2 ⟨_, listed, member⟩, inner⟩
  | object listed inner =>
    obtain ⟨place, there⟩ := List.mem_iff_getElem?.1 listed
    exact classes ⟨place, _, there, .inl inner⟩
  | static paired found member inner =>
    refine classes ⟨_, _, paired, .inr ⟨_, ?_, inner⟩⟩
    rw [Nat.zero_add, found]
    exact member

/-- The names of a block without circular types can be resolved exactly if every index that has to be
    followed is in range.  Otherwise the error names such an index that is not: it is 0, or no less than the
    size of its table.  The program has the classes, names, definitions and tags in the order of the
    block. -/
theorem resolved_unless_dangling {file : File} (acyclic : file.pool.Acyclic) :
    ((∃ p, ofFile file = .ok p) ↔ ∀ table index, file.Follows table index → file.Has table index) ∧
      (∀ e, ofFile file = .error e → ∃ table index, file.Follows table index ∧ ¬file.Has table index ∧
        e = .indexOutOfRange table index (file.size table) ∧ (index = 0 ∨ file.size table ≤ index)) ∧
      ∀ p, ofFile file = .ok p →
        p.classes.length = file.instances.length ∧
        (∀ place info, file.instances[place]? = some info → ∃ c, p.classes[place]? = some c ∧
          ClassOf file place info c ∧ TagsOf file (file.scripts.flatMap ScopeInfo.traits) place c.metadata) ∧
        List.Forall₂ (fun info q => definitionName file.pool info.name = .ok q)
          (file.scripts.flatMap ScopeInfo.traits) p.topLevel ∧
        List.Forall₂
          (fun info d => definitionName file.pool info.name = .ok d.1 ∧ traitDef file info = .ok d.2)
          ((file.scripts.flatMap ScopeInfo.traits).filter fun info => info.classIndex? = none)
          p.definitions := by
  refine ⟨⟨?_, ?_⟩, ?_, ?_⟩
  · rintro ⟨p, read⟩ table index follows
    exact (consults_ofFile acyclic).has p read follows
  · intro inRange
    cases read : ofFile file with
    | ok p => exact ⟨p, rfl⟩
    | error e =>
      obtain ⟨table, index, follows, missing, -⟩ := (consults_ofFile acyclic).blames e read
      exact absurd (inRange table index follows) missing
  · intro e failed
    obtain ⟨table, index, follows, missing, same⟩ := (consults_ofFile acyclic).blames e failed
    exact ⟨table, index, follows, missing, same, File.zero_or_size_le missing⟩
  · intro p read
    obtain ⟨found, scripts, made, topLevel, definitions⟩ := ofFile_ok read
    have tells := tells_scripts scripts
    obtain ⟨length, along⟩ := getElem?_classDefs made
    refine ⟨length, ?_, topLevel ▸ tells.names, definitions ▸ tells.definitions⟩
    intro place info held
    obtain ⟨c, there, read⟩ := along place info held
    rw [Nat.zero_add] at read
    obtain ⟨classOf, tags⟩ := classOf_classDef read
    exact ⟨c, there, classOf, tags ▸ tells.tagged place⟩

/-- A class that extends a parametrised type, with a script that defines it.  The names are `Vector`, `int`,
    the type and `A`. -/
def vectorBlock (parameter : Nat) : File where
  pool :=
    { strings := ["Vector", "int", "A"]
      spaces := [⟨.packageSpace, 0⟩]
      multinames := [.qname false 1 1, .qname false 1 2, .typeName 1 [parameter], .qname false 1 3] }
  instances := [⟨4, 3, 0, none, [], 0, []⟩]
  classes := [⟨0, []⟩]
  scripts := [⟨0, [⟨4, 0, .classRef 1 0, []⟩]⟩]

theorem acyclic_vectorBlock {parameter : Nat} (other : parameter ≠ 3) :
    (vectorBlock parameter).pool.Acyclic := by
  have only {i j : Nat} (h : (vectorBlock parameter).pool.Mentions i j) : i = 3 ∧ j ≠ 3 := by
    obtain ⟨base, parameters, here, mentioned⟩ := h
    rcases i with _ | _ | _ | _ | _ | i <;> simp [vectorBlock, ConstantPool.multiname,
      ConstantPool.entry] at here
    obtain ⟨rfl, rfl⟩ := here
    rw [List.mem_singleton] at mentioned
    omega
  intro index circle
  have ends {i j : Nat} (h : Relation.TransGen (vectorBlock parameter).pool.Mentions i j) :
      i = 3 ∧ j ≠ 3 := by
    induction h with
    | single h => exact only h
    | tail _ h ih => exact ⟨ih.1, (only h).2⟩
  exact (ends circle).2 (ends circle).1

/-- The parameter `int` is there.  A parameter at index 9 is not, and the error says so. -/
theorem resolved_unless_dangling_vector :
    (vectorBlock 2).pool.Acyclic ∧
      (∀ table index, (vectorBlock 2).Follows table index → (vectorBlock 2).Has table index) ∧
      (vectorBlock 9).pool.Acyclic ∧
      (∃ table index, (vectorBlock 9).Follows table index ∧ ¬(vectorBlock 9).Has table index ∧
        DecodeError.indexOutOfRange .multiname 9 5
          = .indexOutOfRange table index ((vectorBlock 9).size table) ∧
        (index = 0 ∨ (vectorBlock 9).size table ≤ index)) := by
  have good := resolved_unless_dangling (acyclic_vectorBlock (show 2 ≠ 3 by decide))
  have bad := resolved_unless_dangling (acyclic_vectorBlock (show 9 ≠ 3 by decide))
  exact ⟨acyclic_vectorBlock (by decide), good.1.1 ⟨_, rfl⟩, acyclic_vectorBlock (by decide), bad.2.1 _ rfl⟩

end Program

end AbcBuild
