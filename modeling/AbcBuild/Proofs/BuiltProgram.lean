/-
Module: AbcBuild.Proofs.BuiltProgram
Purpose: A block built from descriptions of classes is read back as these classes.  What a step has entered
  for one class still stands for the same thing when all later classes are in the block.
Main exports: Abc.MemberSpec.ViewedAs, Abc.ClassSpec.ViewedAs, Abc.Drafting.adds_addClass,
  Program.ofFile_ofClasses
-/
import AbcBuild.Proofs.StoredIndices

namespace AbcBuild

variable {specs : List ClassSpec} {parts : List ClassParts} {place : Nat}

/-- A reference through several namespaces with just one of them is qualified. -/
def Name.narrowed : Name → Name
  | .multi ⟨[space], name⟩ => .qualified ⟨space, name⟩
  | n => n

theorem Resolve.ofSpaces_eq (m : MultiName) :
    Resolve.ofSpaces m.spaces m.name = (Name.multi m).narrowed := by
  rcases m with ⟨_ | ⟨space, _ | ⟨other, more⟩⟩, name⟩ <;> rfl

namespace Abc

/-! ### What a description means -/

/-- The type that a description declares; an absent one and `*` mean any. -/
def declaredType : Option String → Option Name
  | none => none
  | some text => if text = "*" then none else some (.qualified (QName.parse text))

/-- The key under which members are looked up. -/
def Visibility.key : Visibility → String
  | .publicMember => ""
  | .privateMember => "private"
  | .protectedMember => "protected"
  | .internalMember => "internal"
  | .customSpace uri => uri

/-- The parameter at a place. -/
def parameter (typeName : String) (place : Nat) : ParamDef :=
  ⟨some ("arg" ++ toString place), declaredType (some typeName), false⟩

/-- The parameters of a method; the first is at the given place. -/
def parameters (types : List String) (place : Nat) : List ParamDef :=
  (types.zipIdx place).map fun typed => parameter typed.1 typed.2

namespace MemberSpec

def isStatic : MemberSpec → Bool
  | .slot _ _ _ _ _ isStatic _ => isStatic
  | .method _ _ _ _ isStatic => isStatic

def metadata : MemberSpec → List Metadata
  | .slot _ _ _ _ _ _ metadata => metadata
  | .method .. => []

/-- The member that a described member becomes.  The value of a slot is a reference, and the pool has the
    literal there. -/
inductive ViewedAs (pool : ConstantPool) (owner : QName) : MemberSpec → TraitDef → Prop where
  | slot {name : String} {visibility : Visibility} {typeName : Option String} {value : Option Literal}
      {isConst isStatic : Bool} {metadata : List Metadata} {ref : Option OptionalValue}
      (held : ref.map (Constant.ofPool pool) = value.map fun literal => .ok literal.constant) :
      ViewedAs pool owner (.slot name visibility typeName value isConst isStatic metadata)
        { name := name
          space := visibility.key
          uri := visibility.uri owner
          body := .slot (declaredType typeName) ref isConst
          isFinal := false
          isOverride := false
          metadata := metadata }
  | method {name : String} {kind : MethodKind} {paramTypes : List String} {returnType : Option String}
      {isStatic : Bool} :
      ViewedAs pool owner (.method name kind paramTypes returnType isStatic)
        { name := name
          space := ""
          uri := ""
          body := .method kind (parameters paramTypes 0) (declaredType returnType)
          isFinal := false
          isOverride := false
          metadata := [] }

end MemberSpec

namespace ClassSpec

/-- The members of one side, in order. -/
def side (spec : ClassSpec) (isStatic : Bool) : List MemberSpec :=
  spec.members.filter fun m => m.isStatic = isStatic

/-- The tags of the class and of its members. -/
def tags (spec : ClassSpec) : List Metadata := spec.metadata ++ spec.members.flatMap MemberSpec.metadata

/-- The class that a described class becomes. -/
structure ViewedAs (pool : ConstantPool) (spec : ClassSpec) (c : ClassDef) : Prop where
  name : c.name = spec.name
  isPublic : c.isPublic = true
  superName : c.superName = spec.superName.map Name.narrowed
  interfaces : c.interfaces = spec.interfaces.map Name.qualified
  flags : c.flags = spec.flags ||| InstanceFlag.protectedSpace
  metadata : c.metadata = spec.metadata
  instanceTraits : List.Forall₂ (MemberSpec.ViewedAs pool spec.name) (spec.side false) c.instanceTraits
  staticTraits : List.Forall₂ (MemberSpec.ViewedAs pool spec.name) (spec.side true) c.staticTraits

end ClassSpec

namespace Drafting

variable {pre : File → Prop} {info : MethodInfo} {g : File}

/-! ### References to types and members -/

/-- A reference to a type is read back as the name that it was made from, with its candidates narrowed. -/
theorem keeps_typeReference (n : Name) :
    Keeps pre (typeReference n) (Builder.typeReference n) fun index g =>
      g.Has .multiname index ∧ Resolve.name g.pool index = .ok (some n.narrowed) := by
  cases n with
  | qualified q =>
    exact (keeps_qname .packageSpace q.space q.name).imp fun _ _ _ named => ⟨named.1, named.2.resolves⟩
  | multi m =>
    apply Keeps.bind (Keeps.mapM (keeps_space .packageSpace) m.spaces)
    intro set
    apply Keeps.bind (keeps_enter .spaceSet trivial ?_)
    · intro setIndex
      apply Keeps.bind (keeps_string m.name)
      intro text
      apply (keeps_enter .multiname trivial ?_).imp
      · rintro index g ⟨⟨⟨-, spacesAt⟩, setAt⟩, textAt⟩ entry
        have uris : List.Forall₂ (fun uri space => Resolve.spaceUri g.pool space = .ok uri) m.spaces set :=
          spacesAt.imp fun _ _ spaceAt => spaceAt.2.spaceUri
        have found : g.pool.multiname index = .ok (.multiname false text setIndex) := entry.entry _
        have listed : g.pool.spaceSet setIndex = .ok set := setAt.entry _
        refine ⟨entry.has, ?_⟩
        rw [Resolve.name, Resolve.nameWithin, if_neg entry.ne_zero, found]
        change (g.pool.spaceSet setIndex >>= _) = _
        rw [listed]
        change (set.mapM (Resolve.spaceUri g.pool) >>= _) = _
        rw [Resolve.mapM_of_forall₂ uris]
        change (g.pool.string text >>= _) = _
        rw [textAt.string, ← Resolve.ofSpaces_eq]
        rfl
      · rintro g ⟨⟨-, setAt⟩, textAt⟩
        simpa [PoolTable.stored, MultinameInfo.stored] using ⟨textAt.has, setAt.has⟩
    · rintro g ⟨-, spacesAt⟩
      exact File.covers_map.2 (forall_of_forall₂ spacesAt fun _ _ => And.left)

theorem keeps_memberType (typeName : Option String) :
    Keeps pre (memberType typeName) (Builder.memberType typeName) fun index g =>
      (index ≠ 0 → g.Has .multiname index) ∧ Resolve.name g.pool index = .ok (declaredType typeName) := by
  cases typeName with
  | none => exact Keeps.pure fun _ _ => ⟨fun some => absurd rfl some, rfl⟩
  | some text =>
    rw [memberType, Builder.memberType, declaredType]
    split
    next => exact Keeps.pure fun _ _ => ⟨fun some => absurd rfl some, rfl⟩
    next => exact (keeps_typeReference _).imp fun _ _ _ typed => ⟨fun _ => typed.1, typed.2⟩

/-- The name of a member is read back with the key and the namespace of its visibility. -/
theorem keeps_memberName (owner : QName) (visibility : Visibility) (name : String) :
    Keeps pre (memberName owner visibility name) (Builder.memberName owner visibility name) fun index g =>
      g.Has .multiname index ∧ Resolve.memberName g.pool index
        = .ok ⟨visibility.key, visibility.uri owner, name⟩ := by
  cases visibility <;> exact (keeps_qname _ _ name).imp fun _ _ _ named => ⟨named.1, named.2.memberName⟩

/-! ### Methods -/

/-- The name of the parameter at a place is in the block. -/
def NamedAt (g : File) (info : MethodInfo) (place : Nat) : Prop :=
  ∃ index, index ≠ 0 ∧ info.paramNames[place]? = some index ∧
    g.pool.string index = .ok ("arg" ++ toString place)

theorem paramDef_eq {index : Nat} {typeName : String} (plain : info.options = [])
    (within : place < info.paramTypes.length) (named : NamedAt g info place)
    (typed : Resolve.name g.pool index = .ok (declaredType (some typeName))) :
    Resolve.paramDef g info place index = .ok (parameter typeName place) := by
  obtain ⟨nameIndex, some, found, string⟩ := named
  have required : ¬info.paramTypes.length - info.options.length ≤ place := by
    rw [plain]
    exact Nat.not_le.2 within
  simp only [Resolve.paramDef, found, if_neg some, string, typed, required]
  rfl

theorem paramDefs_eq (plain : info.options = [])
    (named : ∀ place < info.paramTypes.length, NamedAt g info place) {types : List String}
    {indices : List Nat}
    (typed : List.Forall₂ (fun typeName index => Resolve.name g.pool index = .ok
      (declaredType (some typeName))) types indices)
    (count : place + types.length = info.paramTypes.length) :
    Resolve.paramDefs g info place indices = .ok (parameters types place) := by
  -- the names are counted from the first parameter, so they are the same facts for every rest of the list
  induction typed generalizing place with
  | nil => rfl
  | @cons typeName index types indices first _ ih =>
    rw [List.length_cons] at count
    have within : place < info.paramTypes.length := by omega
    rw [Resolve.paramDefs, paramDef_eq plain within (named place within) first,
      ih (by omega : place + 1 + types.length = info.paramTypes.length)]
    rfl

theorem arg_ne_empty (text : String) : "arg" ++ text ≠ "" := by
  intro empty
  have long := congrArg String.length empty
  rw [String.length_append] at long
  exact absurd long (by simp)

theorem namedAt_of_forall₂ {count : Nat}
    (h : List.Forall₂ g.TextAt (Builder.parameterNames count) info.paramNames) (within : place < count) :
    NamedAt g info place := by
  obtain ⟨lengths, each⟩ := List.forall₂_iff_get.1 h
  have textWithin : place < (Builder.parameterNames count).length := by
    simpa [Builder.parameterNames] using within
  have nameWithin : place < info.paramNames.length := lengths ▸ textWithin
  have text : (Builder.parameterNames count).get ⟨place, textWithin⟩ = "arg" ++ toString place := by
    simp [Builder.parameterNames]
  have textAt := each place textWithin nameWithin
  rw [text] at textAt
  exact ⟨_, textAt.ne_zero (arg_ne_empty _), List.getElem?_eq_getElem nameWithin, textAt.string⟩

theorem keeps_appendMethod {parameters : Nat}
    (h : ∀ g, pre g → g.Covers info.stored ∧ info.Plain ∧ info.paramTypes.length = parameters) :
    Keeps pre (lift (Builder.appendMethod info parameters)) (Builder.appendMethod info parameters)
      fun index g =>
      g.methods[index]? = some info := by
  apply Keeps.of_gains fun _ _ => rfl
  · intro f
    exact ⟨{ File.Extends.refl f with methods := List.prefix_append .. }, rfl, rfl, rfl⟩
  · intro f laid given
    obtain ⟨covered, plain, count⟩ := h _ given
    have new : Builder.bodyOf f.methods.length parameters
        = Builder.bodyOf f.methods.length info.paramTypes.length := by rw [count]
    exact { laid with
      methods := List.forall_mem_append.2 ⟨laid.methods, List.forall_mem_singleton.2 ⟨covered, plain⟩⟩
      bodies := by
        intro body listed
        rcases List.mem_append.1 listed with old | last
        · exact laid.bodies body old
        · rw [List.mem_singleton.1 last]
          exact ⟨info, List.getElem?_concat_length, new⟩ }
  · exact fun f g later => getElem?_of_isPrefix later.methods List.getElem?_concat_length

theorem nodup_parameterNames (count : Nat) : (Builder.parameterNames count).Nodup := by
  apply List.nodup_range.map
  intro n m same
  have digits := (String.append_right_inj "arg").1 same
  rw [Nat.toString_eq_ofList_toDigits, Nat.toString_eq_ofList_toDigits, String.ofList_inj] at digits
  rw [← Nat.ofDigitChars_ten_toDigits (n := n), digits, Nat.ofDigitChars_ten_toDigits]

theorem ne_empty_of_mem_parameterNames {count : Nat} {text : String}
    (listed : text ∈ Builder.parameterNames count) :
    text ≠ "" := by
  obtain ⟨n, -, rfl⟩ := List.mem_map.1 listed
  exact arg_ne_empty _

/-- A method is named by a text, and its parameters by distinct ones. -/
theorem plain_methodOf {types names : List Nat} {result name : Nat}
    (named : List.Forall₂ g.TextAt (Builder.parameterNames types.length) names) :
    (Builder.methodOf types names result name).Plain where
  flags := rfl
  options := rfl
  named := by
    have lengths := named.length_eq
    rw [Builder.parameterNames, List.length_map, List.length_range] at lengths
    exact lengths.symm
  distinct := File.nodup_of_textAt named (nodup_parameterNames _)
  filled := by
    intro listed
    obtain ⟨text, member, textAt⟩ := exists_of_forall₂ named listed
    exact textAt.ne_zero (ne_empty_of_mem_parameterNames member) rfl

/-- A method has the parameters and the return type that it is described with. -/
theorem signature_eq {types names : List Nat} {result name index : Nat} {paramTypes : List String}
    {returnType : Option String} (held : g.methods[index]? = some (Builder.methodOf types names result name))
    (typed : List.Forall₂ (fun typeName index => Resolve.name g.pool index = .ok
      (declaredType (some typeName))) paramTypes types)
    (named : List.Forall₂ g.TextAt (Builder.parameterNames types.length) names)
    (returned : Resolve.name g.pool result = .ok (declaredType returnType)) :
    Resolve.signature g index = .ok (parameters paramTypes 0, declaredType returnType) := by
  let info := Builder.methodOf types names result name
  have names : ∀ place < info.paramTypes.length, NamedAt g info place := fun _ => namedAt_of_forall₂ named
  rw [Resolve.signature, Resolve.entry_of_getElem? held]
  change (Resolve.paramDefs g info 0 types >>= _) = _
  rw [paramDefs_eq rfl names typed ((Nat.zero_add _).trans typed.length_eq)]
  change (Resolve.name g.pool result >>= _) = _
  rw [returned]
  rfl

/-- A method is read back with the types of its parameters and of its result. -/
theorem keeps_methodInfo (name : String) (paramTypes : List String) (returnType : Option String) :
    Keeps pre (methodInfo name paramTypes returnType) (Builder.methodInfo name paramTypes returnType)
      fun index g =>
      g.Has .method index ∧ Resolve.signature g index = .ok (parameters paramTypes 0,
        declaredType returnType) := by
  apply Keeps.bind (Keeps.mapM (fun t => keeps_memberType (some t)) paramTypes)
  intro types
  apply Keeps.bind (Keeps.mapM keeps_string (Builder.parameterNames paramTypes.length))
  intro names
  apply Keeps.bind (keeps_memberType returnType)
  intro result
  apply Keeps.bind (keeps_string name)
  intro text
  apply (keeps_appendMethod ?_).imp
  · rintro index g ⟨⟨⟨⟨-, typesAt⟩, namesAt⟩, resultAt⟩, -⟩ held
    have typed := typesAt.imp fun _ _ typeAt => typeAt.2
    refine ⟨⟨Nat.zero_le _, (List.getElem?_eq_some_iff.1 held).1⟩, ?_⟩
    exact signature_eq held typed (typesAt.length_eq ▸ namesAt) resultAt.2
  · rintro g ⟨⟨⟨⟨-, typesAt⟩, namesAt⟩, resultAt⟩, textAt⟩
    have count := typesAt.length_eq
    have named : List.Forall₂ g.TextAt (Builder.parameterNames types.length) names := count ▸ namesAt
    refine ⟨?_, plain_methodOf named, count.symm⟩
    simp only [MethodInfo.stored, Builder.methodOf, File.covers_append, File.covers_flatMap,
      File.covers_optional, File.covers_cons, File.covers_map, File.covers_nil, and_true, List.flatMap_nil]
    exact ⟨⟨⟨forall_of_forall₂ typesAt fun _ _ => And.left, resultAt.1⟩, textAt.has⟩,
      forall_of_forall₂ named fun _ _ => File.TextAt.has⟩

/-! ### Members -/

theorem has_tagFlag (tags : List Nat) :
    (Builder.tagFlag tags).has TraitFlag.final = false ∧
    (Builder.tagFlag tags).has TraitFlag.override = false := by
  unfold Builder.tagFlag
  split <;> exact ⟨rfl, rfl⟩

theorem keeps_tags (tags : List Metadata) :
    Keeps pre (tags.mapM metadataTag) (tags.mapM Builder.metadataTag) fun indices g =>
      (∀ index ∈ indices, g.Has .metadata index) ∧
        ((∀ tag ∈ tags, tag.Keyed) → indices.mapM (Resolve.metadataTag g) = .ok tags) := by
  apply (Keeps.mapM keeps_metadataTag tags).imp
  intro indices g _ tagsAt
  refine ⟨forall_of_forall₂ tagsAt fun _ _ => And.left, fun keyed => ?_⟩
  exact Resolve.mapM_of_forall₂ (((List.forall₂_and_left _ _).2 ⟨keyed, tagsAt⟩).imp fun _ _ both =>
    both.2.2 both.1)

/-- The trait is that of the described member in this block. -/
structure TraitAt (g : File) (owner : QName) (m : MemberSpec) (built : Bool × TraitInfo) : Prop where
  covered : g.Covers built.2.stored ∧ built.2.Plain
  isStatic : built.1 = m.isStatic
  viewed : (∀ tag ∈ m.metadata, tag.Keyed) → ∃ d, Resolve.traitDef g built.2 = .ok d ∧
    m.ViewedAs g.pool owner d

/-- A member of a description becomes a trait from which it can be read. -/
theorem keeps_memberTrait (owner : QName) (m : MemberSpec) :
    Keeps pre (memberTrait owner m) (Builder.memberTrait owner m) fun built g =>
      TraitAt g owner m built := by
  cases m with
  | slot name visibility typeName value isConst isStatic metadata =>
    apply Keeps.bind (keeps_memberName owner visibility name)
    intro nameIndex
    apply Keeps.bind (keeps_memberType typeName)
    intro typeIndex
    apply Keeps.bind (keeps_value value)
    intro ref
    apply Keeps.bind (keeps_tags metadata)
    intro tags
    apply Keeps.pure
    rintro g ⟨⟨⟨⟨-, nameAt⟩, typeAt⟩, valueAt⟩, tagsAt⟩
    refine ⟨⟨?_, rfl, rfl, fun constant held => (valueAt.1 constant held).2⟩, rfl, fun keyed => ?_⟩
    · simp only [TraitInfo.stored, TraitData.stored, File.covers_append, File.covers_cons,
        File.covers_optional, File.covers_flatMap, File.covers_map, Option.mem_toList]
      exact ⟨⟨nameAt.1, typeAt.1, fun constant held => (valueAt.1 constant held).1⟩, tagsAt.1⟩
    · refine ⟨_, ?_, .slot valueAt.2⟩
      simp only [Resolve.traitDef, nameAt.2, Resolve.traitBody, typeAt.2, tagsAt.2 keyed, has_tagFlag]
      rfl
  | method name kind paramTypes returnType isStatic =>
    apply Keeps.bind (keeps_memberName owner .publicMember name)
    intro nameIndex
    apply Keeps.bind (keeps_methodInfo name paramTypes returnType)
    intro method
    apply Keeps.pure
    rintro g ⟨⟨-, nameAt⟩, methodAt⟩
    refine ⟨⟨?_, rfl, rfl⟩, rfl, fun _ => ⟨_, ?_, .method⟩⟩
    · simpa [TraitInfo.stored, TraitData.stored] using ⟨nameAt.1, methodAt.1⟩
    · simp only [Resolve.traitDef, nameAt.2, Resolve.traitBody, methodAt.2]
      rfl

theorem forall₂_side {R : MemberSpec → TraitInfo → Prop} {members : List MemberSpec}
    {traits : List (Bool × TraitInfo)}
    (h : List.Forall₂ (fun m built => built.1 = m.isStatic ∧ R m built.2) members traits) (isStatic : Bool) :
    List.Forall₂ R (members.filter fun m => m.isStatic = isStatic) (Builder.side isStatic traits) := by
  induction h with
  | nil => exact .nil
  | @cons m built members traits first _ ih =>
    rw [Builder.side, List.filter_cons, List.filter_cons, first.1]
    split
    next => exact .cons first.2 ih
    next => exact ih

/-- A flag that is added is set. -/
theorem has_or_self (flags : Flags) {flag : Flags} (some : flag ≠ 0) :
    Flags.has (flags ||| flag) flag = true := by
  have whole : (flags ||| flag) &&& flag = flag := by
    apply UInt8.eq_of_toBitVec_eq
    ext i
    simp only [UInt8.toBitVec_and, UInt8.toBitVec_or, BitVec.getElem_and, BitVec.getElem_or]
    cases flag.toBitVec[i] <;> simp
  simp [Flags.has, whole, some]

theorem forall_mem_side {P : TraitInfo → Prop} {traits : List (Bool × TraitInfo)}
    (h : ∀ built ∈ traits, P built.2) (isStatic : Bool) : ∀ t ∈ Builder.side isStatic traits, P t := by
  intro t listed
  obtain ⟨built, member, rfl⟩ := List.mem_map.1 listed
  exact h built (List.mem_filter.1 member).1

end Drafting

/-! ### Classes -/

/-- What a block has of a class: the two sides, and the script that defines it. -/
structure ClassParts where
  object : InstanceInfo
  scope : ScopeInfo
  script : ScopeInfo

/-- The block grows by these classes. -/
structure File.Takes (f : File) (parts : List ClassParts) (g : File) : Prop where
  grows : f.Extends g
  instances : g.instances = f.instances ++ parts.map ClassParts.object
  classes : g.classes = f.classes ++ parts.map ClassParts.scope
  scripts : g.scripts = f.scripts ++ parts.map ClassParts.script

namespace File.Takes

variable {f g h : File} {parts more : List ClassParts}

theorem refl (f : File) : f.Takes [] f :=
  ⟨.refl f, (List.append_nil _).symm, (List.append_nil _).symm, (List.append_nil _).symm⟩

theorem trans (fg : f.Takes parts g) (gh : g.Takes more h) : f.Takes (parts ++ more) h where
  grows := fg.grows.trans gh.grows
  instances := by rw [gh.instances, fg.instances, List.append_assoc, List.map_append]
  classes := by rw [gh.classes, fg.classes, List.append_assoc, List.map_append]
  scripts := by rw [gh.scripts, fg.scripts, List.append_assoc, List.map_append]

theorem after_gains (fg : f.Gains g) (gh : g.Takes parts h) : f.Takes parts h where
  grows := fg.grows.trans gh.grows
  instances := by rw [gh.instances, fg.instances]
  classes := by rw [gh.classes, fg.classes]
  scripts := by rw [gh.scripts, fg.scripts]

end File.Takes

/-- The parts are those of the described class in this block, and its static side is at the place. -/
structure ClassSpec.BuiltAs (spec : ClassSpec) (place : Nat) (parts : ClassParts) (g : File) : Prop where
  name : g.NameAt .packageSpace spec.name.space spec.name.name parts.object.name
  superName : Resolve.name g.pool parts.object.superName = .ok (spec.superName.map Name.narrowed)
  interfaces : parts.object.interfaces.mapM (Resolve.name g.pool) =
    .ok (spec.interfaces.map fun q => some (.qualified q))
  flags : parts.object.flags = spec.flags ||| InstanceFlag.protectedSpace
  instanceTraits : ∃ traits, parts.object.traits.mapM (Resolve.traitDef g) = .ok traits ∧
    List.Forall₂ (MemberSpec.ViewedAs g.pool spec.name) (spec.side false) traits
  staticTraits : ∃ traits, parts.scope.traits.mapM (Resolve.traitDef g) = .ok traits ∧
    List.Forall₂ (MemberSpec.ViewedAs g.pool spec.name) (spec.side true) traits
  scope : g.classes[place]? = some parts.scope
  script : ∃ attributes tags, parts.script.traits
    = [⟨parts.object.name, attributes, .classRef 1 place, tags⟩] ∧
      tags.mapM (Resolve.metadataTag g) = .ok spec.metadata

namespace Drafting

variable {pre : File → Prop}

/-- Whenever the block and all later ones have the first property, the step does what the other does, leaves
    the block as a builder makes it and adds one class, whose parts have the second property in every block
    that comes later. -/
def Adds (pre : File → Prop) (step : Drafting Unit) (plain : Builder Unit)
    (P : Nat → ClassParts → File → Prop) :
    Prop :=
  ∀ draft : Draft, draft.Exact → draft.file.Sound → (∀ g, draft.file.Extends g → pre g) →
    Tracks step plain draft ∧ (step.run draft).2.file.Sound ∧
      ∃ parts, draft.file.Takes [parts] (step.run draft).2.file ∧ ∀ g, (step.run draft).2.file.Extends g →
        P draft.file.classes.length parts g

/-- Steps that keep what is there may come before one that adds a class. -/
theorem Keeps.adds {α : Type} {P : α → File → Prop} {Q : Nat → ClassParts → File → Prop} {step : Drafting α}
    {plain : Builder α} {next : α → Drafting Unit} {plainNext : α → Builder Unit}
    (h : Keeps pre step plain P)
    (rest : ∀ a, Adds (fun g => pre g ∧ P a g) (next a) (plainNext a) Q) :
    Adds pre (step >>= next) (plain >>= plainNext) Q := by
  intro draft exact sound before
  obtain ⟨tracks, sound', gains, holds⟩ := h draft exact sound before
  obtain ⟨tracks', sound'', parts, takes, added⟩ :=
    rest (step.run draft).1 (step.run draft).2 tracks.2 sound' fun g later =>
      ⟨before g (gains.grows.trans later), holds g later⟩
  refine ⟨tracks.bind tracks', sound'', parts, takes.after_gains gains, ?_⟩
  rw [← gains.classes]
  exact added

/-- The two sides are entered before the tags and the script, so the script finds the class at the end of the
    table. -/
theorem adds_define {name : Nat} {object : InstanceInfo} {scope : ScopeInfo} (tags : List Metadata)
    {Q : Nat → ClassParts → File → Prop} (named : ∀ g, pre g → g.Has .multiname name)
    (objectAt : ∀ g, pre g → g.Covers object.stored ∧
      object.protectedSpace.isSome = object.flags.has InstanceFlag.protectedSpace ∧
      ∀ t ∈ object.traits, t.Plain)
    (scopeAt : ∀ g, pre g → g.Covers scope.stored ∧ ∀ t ∈ scope.traits, t.Plain)
    (holds : ∀ g place script attributes indices, pre g → g.classes[place]? = some scope →
      script.traits = [⟨name, attributes, .classRef 1 place, indices⟩] →
      ((∀ tag ∈ tags, tag.Keyed) → indices.mapM (Resolve.metadataTag g) = .ok tags) →
      Q place ⟨object, scope, script⟩ g) :
    Adds pre
      (do
        lift (Builder.appendSides object scope)
        let indices ← tags.mapM metadataTag
        let init ← methodInfo "" [] none
        lift (Builder.appendScript name init indices))
      (do
        Builder.appendSides object scope
        let indices ← tags.mapM Builder.metadataTag
        let init ← Builder.methodInfo "" [] none
        Builder.appendScript name init indices) Q := by
  intro draft exact sound before
  let f := draft.file
  let f₁ := ((Builder.appendSides object scope).run f).2
  obtain ⟨begun, sound₁⟩ : f.Extends f₁ ∧ f₁.Sound :=
    sound.appendSides (fun g later => objectAt g (before g later)) fun g later => scopeAt g (before g later)
  have tracks₁ : Tracks (lift (Builder.appendSides object scope)) (Builder.appendSides object scope) draft :=
    tracks_lift exact fun _ _ _ _ => Iff.rfl
  obtain ⟨tracks₂, sound₂, gains₂, tagged⟩ := keeps_tags tags _ tracks₁.2 sound₁ fun _ _ => trivial
  obtain ⟨tracks₃, sound₃, gains₃, method⟩ :=
    keeps_methodInfo "" [] none _ tracks₂.2 sound₂ fun _ _ => trivial
  let indices := ((tags.mapM metadataTag).run ⟨f₁, draft.maps⟩).1
  let middle := ((tags.mapM metadataTag).run ⟨f₁, draft.maps⟩).2
  let init := ((methodInfo "" [] none).run middle).1
  let f₃ := ((methodInfo "" [] none).run middle).2.file
  have whole : f₁.Gains f₃ := gains₂.trans gains₃
  let script : ScopeInfo :=
    ⟨init, [⟨name, Builder.tagFlag indices, .classRef 1 (f₃.classes.length - 1), indices⟩]⟩
  let f₄ : File := { f₃ with scripts := f₃.scripts ++ [script] }
  -- the script itself is no part of what later blocks extend
  have ended : f₃.Extends f₄ := { File.Extends.refl f₃ with }
  have longer : f₁.classes.length = f.classes.length + 1 := by
    change (f.classes ++ [scope]).length = _
    exact List.length_append
  have last : f₃.classes.length - 1 = f.classes.length := by
    rw [whole.classes, longer]
    rfl
  have sound₄ : f₄.Sound := by
    have classAt : f₃.Has .instances (f₃.classes.length - 1) := by
      refine ⟨Nat.zero_le _, ?_⟩
      change f₃.classes.length - 1 < f₃.instances.length
      rw [last, whole.instances, ← sound₁.sides, longer]
      exact Nat.lt_succ_self _
    apply sound₃.appendScript
    · simp only [script, ScopeInfo.stored, TraitInfo.stored, TraitData.stored, List.flatMap_cons,
        List.flatMap_nil, List.append_nil, File.covers_cons, File.covers_append, File.covers_map,
        File.covers_nil, and_true]
      exact ⟨(method f₃ (.refl f₃)).1, ⟨named _ (before _ (begun.trans whole.grows)), classAt⟩,
        (tagged f₃ gains₃.grows).1⟩
    · exact List.forall_mem_singleton.2 ⟨rfl, rfl⟩
  have tracks₄ : Tracks (lift (Builder.appendScript name init indices)) _ _ :=
    tracks_lift tracks₃.2 fun _ _ _ _ => Iff.rfl
  have grown := (begun.trans whole.grows).trans ended
  refine ⟨tracks₁.bind (tracks₂.bind (tracks₃.bind tracks₄)), sound₄, ⟨object, scope, script⟩,
    ⟨grown, whole.instances, whole.classes, congrArg (· ++ _) whole.scripts⟩, fun g later => ?_⟩
  have later₃ : f₃.Extends g := ended.trans later
  have place : g.classes[f.classes.length]? = some scope :=
    getElem?_of_isPrefix (whole.grows.trans later₃).classes List.getElem?_concat_length
  have defines : script.traits
      = [⟨name, Builder.tagFlag indices, .classRef 1 f.classes.length, indices⟩] := by
    rw [← last]
  exact holds g _ script _ _ (before g (grown.trans later)) place defines
    (tagged g (gains₃.grows.trans later₃)).2

/-- Adding a class gives the parts of the class. -/
theorem adds_addClass (spec : ClassSpec) :
    Adds (fun _ => True) (addClass spec) (Builder.addClass spec) fun place parts g =>
      (∀ tag ∈ spec.tags, tag.Keyed) → spec.BuiltAs place parts g := by
  have referred {pre : File → Prop} :
      Keeps pre (spec.superName.elim (Pure.pure 0) typeReference)
        (spec.superName.elim (Pure.pure 0) Builder.typeReference) fun index g =>
        (index ≠ 0 → g.Has .multiname index) ∧
          Resolve.name g.pool index = .ok (spec.superName.map Name.narrowed) := by
    cases spec.superName with
    | none => exact Keeps.pure fun _ _ => ⟨fun some => absurd rfl some, rfl⟩
    | some superName =>
      exact (keeps_typeReference superName).imp fun _ _ _ referred => ⟨fun _ => referred.1, referred.2⟩
  apply Keeps.adds (keeps_qname .packageSpace spec.name.space spec.name.name)
  intro name
  apply Keeps.adds referred
  intro superName
  apply Keeps.adds (Keeps.mapM (fun q => keeps_typeReference (.qualified q)) spec.interfaces)
  intro interfaces
  apply Keeps.adds (keeps_space .protectedSpace spec.name.text)
  intro protectedSpace
  apply Keeps.adds (keeps_methodInfo "" [] none)
  intro instanceInit
  apply Keeps.adds (keeps_methodInfo "" [] none)
  intro classInit
  apply Keeps.adds (Keeps.mapM (keeps_memberTrait spec.name) spec.members)
  intro traits
  have ranged {g : File} (traitsAt : List.Forall₂ (TraitAt g spec.name) spec.members traits)
      (isStatic : Bool) : ∀ t ∈ Builder.side isStatic traits, g.Covers t.stored ∧ t.Plain :=
    forall_mem_side (forall_of_forall₂ traitsAt fun _ _ => TraitAt.covered) isStatic
  apply adds_define spec.metadata
  · rintro g ⟨⟨⟨⟨⟨⟨⟨-, nameAt⟩, -⟩, -⟩, -⟩, -⟩, -⟩, -⟩
    exact nameAt.1
  · rintro g ⟨⟨⟨⟨⟨⟨⟨-, nameAt⟩, superAt⟩, interfacesAt⟩, spaceAt⟩, initAt⟩, -⟩, traitsAt⟩
    refine ⟨?_, (has_or_self _ (by decide)).symm, fun t listed => (ranged traitsAt false t listed).2⟩
    simp only [InstanceInfo.stored, Builder.objectOf, File.covers_cons, File.covers_append,
      File.covers_optional, File.covers_map, File.covers_flatMap, Option.toList_some,
      List.mem_singleton, forall_eq]
    exact ⟨⟨⟨⟨nameAt.1, superAt.1⟩, spaceAt.1⟩, forall_of_forall₂ interfacesAt fun _ _ => And.left⟩,
      initAt.1, fun t listed => (ranged traitsAt false t listed).1⟩
  · rintro g ⟨⟨-, initAt⟩, traitsAt⟩
    refine ⟨?_, fun t listed => (ranged traitsAt true t listed).2⟩
    simp only [ScopeInfo.stored, File.covers_cons, File.covers_flatMap]
    exact ⟨initAt.1, fun t listed => (ranged traitsAt true t listed).1⟩
  · rintro g place script attributes indices ⟨⟨⟨⟨⟨⟨⟨-, nameAt⟩, superAt⟩, interfacesAt⟩, -⟩, -⟩, -⟩,
      traitsAt⟩ scopeAt scriptAt tagsAt keyed
    have memberKeyed : ∀ m ∈ spec.members, ∀ tag ∈ m.metadata, tag.Keyed :=
      fun m member tag tagged => keyed tag (List.mem_append_right _ (List.mem_flatMap.2 ⟨m, member, tagged⟩))
    have viewed := ((List.forall₂_and_left _ _).2 ⟨memberKeyed, traitsAt⟩).imp fun _ _ both =>
      And.intro both.2.isStatic (both.2.viewed both.1)
    exact {
      name := nameAt.2
      superName := superAt.2
      interfaces :=
        Resolve.mapM_of_forall₂ (List.forall₂_map_left_iff.2 (interfacesAt.imp fun _ _ referred =>
        referred.2))
      flags := rfl
      instanceTraits := Resolve.exists_mapM (forall₂_side viewed false)
      staticTraits := Resolve.exists_mapM (forall₂_side viewed true)
      scope := scopeAt
      script := ⟨attributes, indices, scriptAt, tagsAt fun tag member =>
      keyed tag (List.mem_append_left _ member)⟩ }

/-- Adding classes one after the other gives the parts of each, and the later classes leave them as they
    are. -/
theorem takes_forM (keyed : ∀ spec ∈ specs, ∀ tag ∈ spec.tags, tag.Keyed) {draft : Draft}
    (exact : draft.Exact) (sound : draft.file.Sound) :
    Tracks (specs.forM addClass) (specs.forM Builder.addClass) draft ∧
      ∃ parts, draft.file.Takes parts ((specs.forM addClass).run draft).2.file ∧
        ∀ g, ((specs.forM addClass).run draft).2.file.Extends g →
          List.Forall₂ (fun placed parts => placed.1.BuiltAs placed.2 parts g)
            (specs.zipIdx draft.file.classes.length) parts := by
  induction specs generalizing draft with
  | nil => exact ⟨⟨rfl, exact⟩, [], .refl _, fun _ _ => .nil⟩
  | cons spec rest ih =>
    obtain ⟨tracks, sound', first, takes, built⟩ := adds_addClass spec draft exact sound fun _ _ => trivial
    obtain ⟨tracksRest, parts, takesRest, builtRest⟩ :=
      ih (fun s member => keyed s (.tail _ member)) tracks.2 sound'
    have count : ((addClass spec).run draft).2.file.classes.length = draft.file.classes.length + 1 := by
      rw [takes.classes, List.length_append]
      rfl
    rw [count] at builtRest
    refine ⟨tracks.bind tracksRest, first :: parts, takes.trans takesRest, ?_⟩
    intro g later
    exact .cons (built g (takesRest.grows.trans later) (keyed spec (.head _))) (builtRest g later)

end Drafting

end Abc

/-! ### Reading the block -/

namespace Resolve

open Abc

variable {g : File}

/-- The entry of a described class among the tags of classes. -/
def tagEntry (placed : ClassSpec × Nat) : Nat × List Metadata := (placed.2, placed.1.metadata)

theorem scriptTrait_eq {spec : ClassSpec} {parts : ClassParts} (built : spec.BuiltAs place parts g)
    (within : place < g.instances.length) (found : Scripts) :
    parts.script.traits.foldlM (scriptTrait g) found = .ok
      { found with
        topLevel := found.topLevel ++ [spec.name]
        classTags := tagEntry (spec, place) :: found.classTags } := by
  obtain ⟨attributes, tags, traits, tagged⟩ := built.script
  have held : entry .instances g.instances place = .ok (g.instances.get ⟨place, within⟩) :=
    entry_of_getElem? (List.getElem?_eq_getElem within)
  rw [traits, List.foldlM_cons]
  simp only [scriptTrait, built.name.definitionName, held, tagged]
  rfl

theorem foldlM_scripts {placed : List (ClassSpec × Nat)}
    (built : List.Forall₂ (fun placed parts => placed.1.BuiltAs placed.2 parts g) placed parts)
    (within : ∀ p ∈ placed, p.2 < g.instances.length) (found : Scripts) :
    ((parts.map ClassParts.script).flatMap ScopeInfo.traits).foldlM (scriptTrait g) found = .ok
      { found with
        topLevel := found.topLevel ++ placed.map fun p => p.1.name
        classTags := (placed.map tagEntry).reverse ++ found.classTags } := by
  induction built generalizing found with
  | nil =>
    simp only [List.map_nil, List.append_nil, List.reverse_nil, List.nil_append]
    rfl
  | @cons p part placed parts first _ ih =>
    rw [List.map_cons, List.flatMap_cons, List.foldlM_append, scriptTrait_eq first (within p (.head _))]
    change List.foldlM _ _ _ = _
    rw [ih fun q member => within q (.tail _ member)]
    simp

/-- The class that was built from a description is read back as what the description shows. -/
theorem classDef_eq {spec : ClassSpec} {parts : ClassParts} {tags : List (Nat × List Metadata)}
    (built : spec.BuiltAs place parts g) (tagged : Table.lookup place tags = some spec.metadata) :
    ∃ c, classDef g tags place parts.object = .ok c ∧ spec.ViewedAs g.pool c := by
  obtain ⟨instanceTraits, readInstance, viewedInstance⟩ := built.instanceTraits
  obtain ⟨staticTraits, readStatic, viewedStatic⟩ := built.staticTraits
  have named : (spec.interfaces.map fun q => some (Name.qualified q)).filterMap id =
      spec.interfaces.map .qualified := by
    rw [List.filterMap_map]
    exact congrFun List.filterMap_eq_map _
  let c : ClassDef := {
    name := spec.name
    isPublic := true
    superName := spec.superName.map Name.narrowed
    interfaces := spec.interfaces.map .qualified
    flags := spec.flags ||| InstanceFlag.protectedSpace
    metadata := spec.metadata
    instanceTraits := instanceTraits
    staticTraits := staticTraits }
  refine ⟨c, ?_, ⟨rfl, rfl, rfl, rfl, rfl, rfl, viewedInstance, viewedStatic⟩⟩
  simp only [classDef, built.name.definitionName, built.name.isPublic, built.superName, built.interfaces,
    readInstance, built.scope, readStatic, tagged, built.flags]
  change Except.ok _ = _
  rw [named]
  rfl

/-- So are all classes, in their order. -/
theorem classDefs_eq {tags : List (Nat × List Metadata)}
    (built : List.Forall₂ (fun placed parts => placed.1.BuiltAs placed.2 parts g) (specs.zipIdx place) parts)
    (tagged : ∀ p ∈ specs.zipIdx place, Table.lookup p.2 tags = some p.1.metadata) :
    ∃ classes, classDefs g tags place (parts.map ClassParts.object) = .ok classes ∧
      List.Forall₂ (ClassSpec.ViewedAs g.pool) specs classes := by
  induction specs generalizing place parts with
  | nil =>
    cases built
    exact ⟨[], rfl, .nil⟩
  | cons spec rest ih =>
    rw [List.zipIdx_cons] at built tagged
    cases built with
    | cons first others =>
      obtain ⟨c, read, viewed⟩ := classDef_eq first (tagged _ (.head _))
      obtain ⟨classes, readRest, viewedRest⟩ := ih others fun p member => tagged p (.tail _ member)
      refine ⟨c :: classes, ?_, .cons viewed viewedRest⟩
      rw [List.map_cons, classDefs, read, readRest]
      rfl

end Resolve

namespace Program

open Abc

/-- The tags of each class are found under its place. -/
theorem lookup_tagEntry {p : ClassSpec × Nat} (member : p ∈ specs.zipIdx) :
    Table.lookup p.2 (specs.zipIdx.map Resolve.tagEntry).reverse = some p.1.metadata := by
  apply Table.lookup_of_mem
  · have places : (specs.zipIdx.map Resolve.tagEntry).map Prod.fst = List.range' 0 specs.length := by
      rw [List.map_map]
      exact List.zipIdx_map_snd 0 specs
    rw [List.map_reverse, places]
    exact List.nodup_reverse.2 List.nodup_range'
  · rw [List.mem_reverse]
    exact List.mem_map_of_mem member

/-- A block with the parts of described classes is read as these classes. -/
theorem ofFile_of_parts {file : File}
    (built : List.Forall₂ (fun placed parts => placed.1.BuiltAs placed.2 parts file) specs.zipIdx parts)
    (instances : file.instances = parts.map ClassParts.object)
    (scripts : file.scripts = parts.map ClassParts.script) :
    ∃ classes, Program.ofFile file = .ok ⟨.fresh, file, classes, [], specs.map ClassSpec.name⟩ ∧
      List.Forall₂ (ClassSpec.ViewedAs file.pool) specs classes := by
  have within : ∀ p ∈ specs.zipIdx, p.2 < file.instances.length := by
    intro p member
    rw [instances, List.length_map, ← built.length_eq, List.length_zipIdx]
    exact List.snd_lt_of_mem_zipIdx member
  have names : specs.zipIdx.map (fun p => p.1.name) = specs.map ClassSpec.name :=
    calc specs.zipIdx.map (fun p => p.1.name)
        = (specs.zipIdx.map Prod.fst).map ClassSpec.name := List.map_map.symm
      _ = specs.map ClassSpec.name := by rw [List.zipIdx_map_fst]
  have readScripts : Resolve.scripts file =
      .ok { topLevel := specs.map ClassSpec.name
            classTags := (specs.zipIdx.map Resolve.tagEntry).reverse } := by
    rw [Resolve.scripts, scripts, Resolve.foldlM_scripts built within, names, List.append_nil]
    rfl
  obtain ⟨classes, readClasses, viewed⟩ := Resolve.classDefs_eq built fun p => lookup_tagEntry
  refine ⟨classes, ?_, viewed⟩
  rw [ofFile, readScripts]
  change (Resolve.classDefs file _ 0 file.instances >>= _) = _
  rw [instances, readClasses]
  rfl

/-- The parts of described classes are in the block that is built from them. -/
theorem built_ofClasses (keyed : ∀ spec ∈ specs, ∀ tag ∈ spec.tags, tag.Keyed) :
    ∃ parts, List.Forall₂ (fun placed parts => placed.1.BuiltAs placed.2 parts (File.ofClasses specs))
      specs.zipIdx parts ∧ (File.ofClasses specs).instances = parts.map ClassParts.object ∧
        (File.ofClasses specs).scripts = parts.map ClassParts.script := by
  obtain ⟨tracks, parts, takes, stays⟩ := Drafting.takes_forM keyed Draft.exact_empty File.sound_empty
  have same : ((specs.forM Drafting.addClass).run {}).2.file = File.ofClasses specs :=
    congrArg Prod.snd tracks.1.symm
  rw [same] at takes stays
  exact ⟨parts, stays _ (.refl _), takes.instances, takes.scripts⟩

/-- A block built from descriptions of classes is read back as these classes, in their order, and defines
    nothing else.  Only an empty key of a tag would not come back. -/
theorem ofFile_ofClasses (specs : List ClassSpec) (keyed : ∀ spec ∈ specs, ∀ tag ∈ spec.tags, tag.Keyed) :
    ∃ p, Program.ofFile (File.ofClasses specs) = .ok p ∧ p.file = File.ofClasses specs ∧
      p.topLevel = specs.map ClassSpec.name ∧ p.definitions = [] ∧
        List.Forall₂ (ClassSpec.ViewedAs p.pool) specs p.classes := by
  obtain ⟨parts, built, instances, scripts⟩ := built_ofClasses keyed
  obtain ⟨classes, read, viewed⟩ := ofFile_of_parts built instances scripts
  exact ⟨_, read, rfl, rfl, rfl, viewed⟩

/-- Two classes, of which the second refers to the first. -/
def described : List ClassSpec :=
  [{ name := ⟨"ui", "Button"⟩
     superName := some (.multi ⟨["core"], "Control"⟩)
     interfaces := [⟨"", "IPart"⟩]
     members :=
       [.slot "label" .publicMember (some "String") (some (.string "")) false false
          [⟨"Bindable", [(none, ""), (some "event", "change")]⟩],
        .slot "any" .privateMember (some "*") (some .null) true true [],
        .slot "flag" (.customSpace "urn:mx") none (some (.boolean false)) true false [],
        .method "press" .method ["int", "*"] (some "void") false]
     metadata := [⟨"Style", [(none, "color")]⟩, ⟨"", []⟩] },
   { name := ⟨"", "Window"⟩
     superName := some (.multi ⟨["ui", "core"], "Button"⟩)
     members := [.slot "label" .protectedMember (some "ui:Button") (some (.int 7)) false false []] }]

theorem ofFile_ofClasses_described :
    (∀ spec ∈ described, ∀ tag ∈ spec.tags, tag.Keyed) ∧
      ∃ p, Program.ofFile (File.ofClasses described) = .ok p ∧ p.file = File.ofClasses described ∧
        p.topLevel = [⟨"ui", "Button"⟩, ⟨"", "Window"⟩] ∧ p.definitions = [] ∧
          List.Forall₂ (ClassSpec.ViewedAs p.pool) described p.classes :=
  ⟨by decide, ofFile_ofClasses described (by decide)⟩

/-- An empty key comes back as none. -/
example : Resolve.metadataTag ((Builder.metadataTag ⟨"Style", [(some "", "color")]⟩).run {}).2 0 =
    .ok ⟨"Style", [(none, "color")]⟩ := by
  decide

end Program

end AbcBuild
