/-
Module: AbcBuild.Proofs.Bundles
Purpose: The bytecode of a bundle.  It is a block with one class, which carries the entries of the file as
  the descriptor of the bundle does; the name of the class is the text of the bundle's class name, read as a
  qualified name.
Main exports: PropertiesFile.Writable, BundleFrontend.wellFormed_block,
  BundleFrontend.bytecode_carries_entries, BundleFrontend.bytecode_defines_parsed_name
-/
import AbcBuild.Frontend.Bundle
import AbcBuild.Proofs.BuiltProgram
import AbcBuild.Proofs.Capacity
import AbcBuild.Proofs.Format
import AbcBuild.Proofs.Part
import AbcBuild.Proofs.TextSize
import Mathlib.Algebra.Order.BigOperators.Group.List

namespace AbcBuild

/-! ### The block of a bundle -/

/-- The name of the class and the entries are not too long to be written. -/
structure PropertiesFile.Writable (file : PropertiesFile) : Prop where
  named : Abc.textSize file.className.text < 2 ^ 30
  size : (file.entries.entries.map fun entry => Abc.textSize entry.1 + Abc.textSize entry.2).sum < 2 ^ 30

namespace BundleFrontend

open Abc

variable {file : PropertiesFile}

theorem specOf_eq (file : PropertiesFile) : specOf file =
    { name := QName.parse file.className.text
      superName := some (.qualified (QName.parse bundleClass))
      members := file.entries.entries.map Builder.textConstant } := by
  have folded (spec : ClassSpec) (entries : List (String × String)) :
      entries.foldl (fun spec entry => spec.constant entry.1 "String" (.string entry.2) false) spec =
        { spec with members := spec.members ++ entries.map Builder.textConstant } := by
    induction entries generalizing spec with
    | nil => rw [List.map_nil, List.append_nil, List.foldl_nil]
    | cons entry rest ih =>
      rw [List.foldl_cons, ih, List.map_cons, List.append_cons]
      rfl
  exact folded _ file.entries.entries

/-- The total size bounds each entry, and through the keys how many there are. -/
theorem textual_specOf (h : file.Writable) (distinct : file.entries.keys.Nodup) :
    (specOf file).Textual file.entries.entries ∧ 3 * file.entries.entries.length + 5 ≤ 1073741822 := by
  obtain ⟨space, name, text⟩ := textSize_parse file.className.text
  have named := h.named
  have size := h.size
  have keys : (file.entries.keys.map textSize).sum < 1073741824 := by
    rw [Table.keys, List.map_map]
    exact (List.sum_le_sum fun entry _ => Nat.le_add_right _ _).trans_lt size
  have room : 3 * file.entries.entries.length + 5 ≤ 1073741822 := by
    have few := length_le_of_size distinct keys
    rwa [Table.keys, List.length_map] at few
  have texts : ∀ entry ∈ file.entries.entries, SmallText entry.1 ∧ SmallText entry.2 := by
    intro entry member
    have listed := List.mem_map_of_mem (f := fun entry => textSize entry.1 + textSize entry.2) member
    have part := List.single_le_sum (fun _ _ => Nat.zero_le _) _ listed
    have key : textSize entry.1 < 1073741824 := by omega
    have value : textSize entry.2 < 1073741824 := by omega
    exact ⟨key, value⟩
  rw [specOf_eq]
  refine ⟨?_, room⟩
  exact {
    space := space.trans_lt named
    name := name.trans_lt named
    text := text.trans_lt named
    superName := ⟨_, rfl, by decide, by decide⟩
    interfaces := rfl
    members := rfl
    metadata := rfl
    texts := ⟨by unfold Abc.Small; omega, texts⟩ }

/-- The block of a bundle can be written. -/
theorem wellFormed_block (h : file.Writable) (distinct : file.entries.keys.Nodup) :
    (File.ofClasses [specOf file]).WellFormed := by
  obtain ⟨textual, room⟩ := textual_specOf h distinct
  exact textual.wellFormed room

end BundleFrontend

/-! ### Blocks of one class -/

namespace Program

open Abc

theorem decode_eq_ofFile {bytes : List UInt8} {file : File} (h : File.decode bytes = .ok file) :
    Program.decode bytes = Program.ofFile file := by
  rw [Program.decode, h]
  rfl

/-- The block of one described class is read back as that class. -/
theorem decode_single {spec : ClassSpec} (keyed : ∀ tag ∈ spec.tags, tag.Keyed)
    (valid : (File.ofClasses [spec]).WellFormed) :
    ∃ p c, Program.decode (File.ofClasses [spec]).encode = .ok p ∧ p.topLevel = [spec.name] ∧
      p.classes = [c] ∧ spec.ViewedAs p.pool c := by
  obtain ⟨parts, built, instances, scripts⟩ := built_ofClasses (List.forall_mem_singleton.2 keyed)
  obtain ⟨classes, read, viewed⟩ := ofFile_of_parts built instances scripts
  obtain ⟨c, rest, viewedHere, none, rfl⟩ := List.forall₂_cons_left_iff.1 viewed
  cases none
  exact ⟨_, c, (decode_eq_ofFile (File.decode_encode valid)).trans read, rfl, rfl, viewedHere⟩

/-- Initializers without warnings leave the log as it is. -/
theorem constants_quiet {p : Program} {types : SlotTypes} {strict : Bool}
    (quiet : ∀ i ∈ p.initializers, ∃ value, p.evaluate types strict i = some (value, none)) (source : String)
    (log : Log) : (p.constants types strict source log).2 = log := by
  unfold constants
  generalize p.initializers = pending at quiet
  generalize (Table.empty : Table TraitRef ConstantValue) = values
  induction pending generalizing values with
  | nil => rfl
  | cons i rest ih =>
    obtain ⟨value, made⟩ := quiet i (.head _)
    rw [List.foldl_cons, made]
    exact ih (fun i later => quiet i (.tail _ later)) _

end Program

/-! ### The program of a bundle -/

namespace BundleFrontend

open Abc

variable {file : PropertiesFile} {u : BuildUnit}

/-- The type of every constant of a bundle. -/
def textType : QName := QName.unnamed "String"

/-- The member is the constant of an entry. -/
structure Carries (pool : ConstantPool) (entry : String × String) (d : TraitDef) : Prop where
  name : d.name = entry.1
  space : d.space = ""
  metadata : d.metadata = []
  body : ∃ i, d.body = .slot (some (.qualified textType)) (some i) true ∧
    Constant.ofPool pool i = .ok (.string entry.2)

theorem carries_of_viewedAs {pool : ConstantPool} {owner : QName} {entry : String × String} {d : TraitDef}
    (h : (Builder.textConstant entry).ViewedAs pool owner d) : Carries pool entry d := by
  unfold Builder.textConstant at h
  cases h with
  | slot held =>
    obtain ⟨i, rfl, constant⟩ := Option.map_eq_some_iff.1 held
    exact ⟨rfl, rfl, rfl, i, rfl, constant⟩

/-- The program has one class, whose constants are the entries of the file. -/
structure ReadAs (file : PropertiesFile) (p : Program) (c : ClassDef) : Prop where
  topLevel : p.topLevel = [QName.parse file.className.text]
  classes : p.classes = [c]
  name : c.name = QName.parse file.className.text
  superName : c.superName = some (.qualified (QName.parse bundleClass))
  interfaces : c.interfaces = []
  entries : List.Forall₂ (Carries p.pool) file.entries.entries c.instanceTraits
  noStatics : c.staticTraits = []

/-- The bytecode of a bundle is read back as its entries. -/
theorem decode_bytecodeOf (h : file.Writable) (distinct : file.entries.keys.Nodup) :
    ∃ p c, Program.decode (bytecodeOf file) = .ok p ∧ ReadAs file p c := by
  have spec := specOf_eq file
  have untagged : (specOf file).tags = [] := by
    rw [spec, ClassSpec.tags, List.flatMap_map]
    exact List.flatMap_eq_nil_iff.2 fun _ _ => rfl
  have keyed : ∀ tag ∈ (specOf file).tags, tag.Keyed := by
    rw [untagged]
    exact List.forall_mem_nil _
  have instances : (specOf file).side false = file.entries.entries.map Builder.textConstant := by
    rw [spec, ClassSpec.side, List.filter_map]
    exact congrArg _ (List.filter_eq_self.2 fun _ _ => rfl)
  have statics : (specOf file).side true = [] := by
    rw [spec, ClassSpec.side, List.filter_map]
    exact List.map_eq_nil_iff.2 (List.filter_eq_nil_iff.2 fun _ _ => Bool.false_ne_true)
  obtain ⟨p, c, read, topLevel, classes, viewed⟩ := Program.decode_single keyed (wellFormed_block h distinct)
  have entries := viewed.instanceTraits
  have others := viewed.staticTraits
  rw [instances, List.forall₂_map_left_iff] at entries
  rw [statics, List.forall₂_nil_left_iff] at others
  refine ⟨p, c, read, ?_⟩
  rw [spec] at topLevel viewed
  exact {
    topLevel := topLevel
    classes := classes
    name := viewed.name
    superName := viewed.superName
    interfaces := viewed.interfaces
    entries := entries.imp fun entry d => carries_of_viewedAs
    noStatics := others }

/-- Whatever is known, the type of the constants is bound to itself. -/
theorem boundIn_textType (known : QName → Bool) :
    (Name.qualified textType).boundIn known = some textType := by
  unfold Name.boundIn
  cases hknown : known textType <;> simp [Name.candidates, hknown, Name.builtin?]
  decide

namespace ReadAs

variable {file : PropertiesFile} {p : Program} {c : ClassDef} {m : TraitRef × TraitDef}

section

variable (h : ReadAs file p c)
include h

theorem indexed : Program.indexed p.classes = [(0, c)] := by
  rw [h.classes]
  rfl

theorem lastOf? : p.lastOf? c.name = some (0, c) := by
  rw [Program.lastOf?, h.indexed]
  exact if_pos rfl

theorem eq_of_lastOf? {name : QName} {index : Nat} {c' : ClassDef}
    (found : p.lastOf? name = some (index, c')) : index = 0 ∧ c' = c := by
  have listed := (Program.mem_of_lastOf? found).1
  rw [h.indexed] at listed
  exact Prod.mk.injEq .. ▸ List.mem_singleton.1 listed

/-- The members with their places are the entries in order. -/
theorem members :
    List.Forall₂ (fun entry m => m.1.isStatic = false ∧ Carries p.pool entry m.2) file.entries.entries
      (Program.members 0 c) := by
  rw [Program.members, h.noStatics, show Program.placed 0 true [] = [] from rfl, List.append_nil,
    Program.placed]
  refine List.forall₂_map_right_iff.2 ?_
  have along := h.entries
  rw [← List.zipIdx_map_fst 0 c.instanceTraits] at along
  exact (List.forall₂_map_right_iff.1 along).imp fun _ _ carries => ⟨rfl, carries⟩

theorem member (member : m ∈ Program.members 0 c) :
    ∃ entry, m.1.isStatic = false ∧ Carries p.pool entry m.2 := by
  have along := h.members
  generalize file.entries.entries = entries, Program.members 0 c = members at along member
  induction along with
  | nil => cases member
  | cons first _ ih =>
    rcases List.mem_cons.1 member with rfl | later
    · exact ⟨_, first⟩
    · exact ih later

/-- Before any binding, no supertype is bound. -/
theorem mirrors :
    p.Mirrors (fun _ c slot => Program.Untyped slot ∧ Program.SuperIn (fun _ => false) c slot) p.frame where
  distinct := (Program.mirrors_frame p).distinct
  slots := by
    intro name slot found
    rw [Program.get?_own_frame, Option.map_eq_some_iff] at found
    obtain ⟨⟨index, c'⟩, last, rfl⟩ := found
    refine ⟨index, c', last, Program.slotOf_classSlot index c', Program.untyped_classSlot index c', ?_⟩
    have unbound : (Name.qualified (QName.parse bundleClass)).boundIn (fun _ => false) = none := by decide
    obtain ⟨-, rfl⟩ := h.eq_of_lastOf? last
    rw [Program.SuperIn, h.superName, Option.bind_some, unbound]
    rfl
  complete := (Program.mirrors_frame p).complete

/-- A data slot of the class has the type of the constants, and a text for its value. -/
theorem slot (member : m ∈ Program.members 0 c) {declared : Option Name}
    {initializer : Option OptionalValue} {isConst : Bool}
    (body : m.2.body = .slot declared initializer isConst) :
    declared = some (.qualified textType) ∧
      ∃ i text, initializer = some i ∧ Constant.ofPool p.pool i = .ok (.string text) := by
  obtain ⟨entry, -, carried⟩ := h.member member
  obtain ⟨i, same, held⟩ := carried.body
  rw [body] at same
  cases same
  exact ⟨rfl, i, entry.2, rfl, held⟩

/-- Every type is bound. -/
theorem unresolved : p.frame.resolveTypes.2.2 = [] := by
  refine List.eq_nil_iff_forall_not_mem.2 fun n left => ?_
  obtain ⟨index, c', ref, d, initializer, isConst, last, member, body, unknown⟩ :=
    h.mirrors.of_mem_unresolved left
  obtain ⟨rfl, rfl⟩ := h.eq_of_lastOf? last
  rw [Option.some.inj (h.slot member body).1, boundIn_textType] at unknown
  cases unknown

theorem typeAt (member : m ∈ Program.members 0 c) {declared : Option Name}
    {initializer : Option OptionalValue} {isConst : Bool}
    (body : m.2.body = .slot declared initializer isConst) :
    p.frame.resolveTypes.2.1.get? m.1 = some textType := by
  rw [h.mirrors.typesOf (fun _ _ _ holds => holds.1) c.name 0 c h.lastOf? m.1 m.2 declared initializer
    isConst member body, (h.slot member body).1]
  exact boundIn_textType p.frame.contains

/-- A text is no number, and it fits its type, so there is nothing to warn of. -/
theorem evaluate (strict : Bool) {i : Program.Initializer} (member : i ∈ p.initializers) :
    ∃ value, p.evaluate p.frame.resolveTypes.2.1 strict i = some (value, none) := by
  obtain ⟨index, c', d, declared, isConst, placed, listed, body, -⟩ := Program.mem_initializers.1 member
  rw [h.indexed, List.mem_singleton, Prod.mk.injEq] at placed
  obtain ⟨rfl, rfl⟩ := placed
  obtain ⟨-, _, text, same, held⟩ := h.slot listed body
  cases same
  have coerced : Constant.coerce i.name textType (.string text) strict = (.string text, none) := by
    cases strict <;> rfl
  refine ⟨.string text, ?_⟩
  rw [Program.evaluate, held]
  simp only [h.typeAt listed body, coerced]

end

end ReadAs

/-- A qualified name is written as it is, whatever the frame and the registry know. -/
theorem typeText_qualified (frame : Frame) (q : QName) :
    Publication.typeText frame (.qualified q) = Pure.pure q.text := by
  unfold Publication.typeText
  split
  next q' found =>
    have same := List.mem_of_find?_eq_some found
    rw [List.mem_singleton.1 same]
  next => rfl

section

variable {frame : Frame} {slot : Option ClassSlot} {values : Table TraitRef ConstantValue}
  {pool : ConstantPool}

/-- The constant of an entry is added. -/
theorem addMember_eq {entry : String × String} {m : TraitRef × TraitDef} (carried : Carries pool entry m.2)
    (isInstance : m.1.isStatic = false) (bound : Publication.boundType? slot m.1 = some textType.text)
    (value : values.get? m.1 = some (.string entry.2)) (d : ClassDescriptor) :
    Publication.addMember frame slot values d m
      = Pure.pure (d.addVariable (variableOf d.name entry.1 entry.2)) := by
  obtain ⟨i, body, -⟩ := carried.body
  unfold Publication.addMember
  simp only [body, bound, value, isInstance, carried.name, carried.space, carried.metadata, pure_bind]
  rfl

/-- The constants of the entries are added in order. -/
theorem foldlM_addMember {entries : List (String × String)} {members : List (TraitRef × TraitDef)}
    (along : List.Forall₂ (fun entry m => m.1.isStatic = false ∧ Carries pool entry m.2) entries members)
    (bound : ∀ m ∈ members, Publication.boundType? slot m.1 = some textType.text)
    (valued : ∀ m ∈ members, ∀ entry, Carries pool entry m.2 → values.get? m.1 = some (.string entry.2))
    (d : ClassDescriptor) :
    members.foldlM (Publication.addMember frame slot values) d =
      Pure.pure { d with vars := d.vars ++ entries.map fun entry => variableOf d.name entry.1 entry.2 } := by
  induction along generalizing d with
  | nil =>
    rw [List.map_nil, List.append_nil]
    rfl
  | cons first _ ih =>
    obtain ⟨boundFirst, boundRest⟩ := List.forall_mem_cons.1 bound
    obtain ⟨valuedFirst, valuedRest⟩ := List.forall_mem_cons.1 valued
    rw [List.foldlM_cons, addMember_eq first.2 first.1 boundFirst (valuedFirst _ first.2), pure_bind,
      ih boundRest valuedRest, List.map_cons, List.append_cons]
    rfl

end

namespace ReadAs

variable {file : PropertiesFile} {p : Program} {c : ClassDef}

/-- The class is published with the entries as its variables; the registry is not asked. -/
theorem descriptors (h : ReadAs file p c) (strict : Bool) (source : String) (log : Log) (r : Registry) :
    ∃ d, (Publication.descriptors p p.frame.resolveTypes.1
        (p.constants p.frame.resolveTypes.2.1 strict source log).1 source).run r = ([d], r) ∧
      d.superName = some bundleClass ∧
      d.vars = file.entries.entries.map fun entry => variableOf d.name entry.1 entry.2 := by
  let frame := p.frame.resolveTypes.1
  let values := (p.constants p.frame.resolveTypes.2.1 strict source log).1
  obtain ⟨slot, -, found, -, super, types⟩ := h.mirrors.resolveTypes.slot h.lastOf?
  have bound : ∀ m ∈ Program.members 0 c, Publication.boundType? (some slot) m.1 = some textType.text := by
    intro m member
    obtain ⟨entry, -, carried⟩ := h.member member
    obtain ⟨i, body, -⟩ := carried.body
    have typed := types m.1 m.2 _ _ _ member body
    rw [Option.bind_some, boundIn_textType] at typed
    have shown : Publication.boundType? (some slot) m.1 = (slot.typeAt m.1).map QName.text := by
      rw [ClassSlot.typeAt, Option.map_bind]
      rfl
    rw [shown, typed]
    rfl
  have valued : ∀ m ∈ Program.members 0 c, ∀ entry, Carries p.pool entry m.2 →
      values.get? m.1 = some (.string entry.2) := by
    intro m member entry carried
    obtain ⟨i, body, held⟩ := carried.body
    have placed : (0, c) ∈ Program.indexed p.classes := by
      rw [h.indexed]
      exact List.mem_singleton_self _
    rw [p.get?_constants _ strict source log placed member body, Option.bind_some, Program.valueOf, held,
      h.typeAt member body]
    rfl
  have unbound : slot.resolvedSuper = none := by
    rw [super, h.superName]
    decide
  have made : ∃ d, Publication.descriptor frame values source 0 c = Pure.pure d ∧
      d.superName = some bundleClass ∧ d.vars = file.entries.entries.map fun entry =>
        variableOf d.name entry.1 entry.2 := by
    unfold Publication.descriptor
    simp only [frame, found, Option.bind_some, unbound, h.superName, h.interfaces, Publication.typeText?,
      Option.mapM_some, typeText_qualified, map_pure, pure_bind, List.mapM_nil,
      foldlM_addMember h.members bound valued]
    exact ⟨_, rfl, rfl, rfl⟩
  obtain ⟨d, descriptor, shows⟩ := made
  refine ⟨d, ?_, shows⟩
  rw [Publication.descriptors, h.indexed, List.mapM_cons, List.mapM_nil]
  change StateT.run (Publication.descriptor frame values source 0 c >>= _) r = _
  rw [descriptor]
  rfl

end ReadAs

/-! ### Units of bundles -/

theorem bytes_generate {cx : Context} (tree : u.properties? = some file)
    (ok : cx.hasErrors = false) : (generate [] u cx).1.bytes = bytecodeOf file := by
  rw [generate, Part.runAll_nil .generate u ok]
  simp only [if_true, tree]
  rfl

/-- The bytecode of a bundle carries the entries that its descriptor carries: read and analyzed, it gives one
    class with the same variables, and no diagnostics. -/
theorem bytecode_carries_entries (u : BuildUnit) (cx : Context) (file : PropertiesFile)
    (tree : u.properties? = some file) (ok : cx.hasErrors = false) (distinct : file.entries.keys.Nodup)
    (small : file.Writable) (strict : Bool) (log : Log) (r : Registry) :
    ∃ p d, Program.decode (generate [] u cx).1.bytes = .ok p ∧ p.frame.resolveTypes.2.2 = [] ∧
      (p.constants p.frame.resolveTypes.2.1 strict u.source.name log).2 = log ∧
      (Publication.descriptors p p.frame.resolveTypes.1
        (p.constants p.frame.resolveTypes.2.1 strict u.source.name log).1 u.source.name).run r = ([d], r) ∧
      d.superName = some "mx.resources:ResourceBundle" ∧
      d.vars = (descriptorOf file u.source.name).vars.map fun v => { v with declaringClass := d.name } := by
  obtain ⟨p, c, read, shown⟩ := decode_bytecodeOf small distinct
  obtain ⟨d, published, superName, vars⟩ := shown.descriptors strict u.source.name log r
  have quiet := Program.constants_quiet (fun i => shown.evaluate strict) u.source.name log
  refine ⟨p, d, ?_, shown.unresolved, quiet, published, superName, ?_⟩
  · rw [bytes_generate tree ok]
    exact read
  · rw [vars, descriptorOf, List.map_map]
    rfl

/-- A source of texts whose short name has a dot. -/
def strings : Source where
  name := "my.strings.properties"
  parent := "en"
  mime := Mime.properties
  content := .ok (Utf8.encodeString "ok=OK\n=\nString=en\nen=String")

/-- The file of the source; one of its keys and one of its values are empty, and some texts are both key and
    value. -/
def stringsFile : PropertiesFile where
  locale := "en"
  bundle := "my.strings"
  entries := ⟨[("ok", "OK"), ("", ""), ("String", "en"), ("en", "String")]⟩

theorem writable_stringsFile : stringsFile.Writable := ⟨by decide, by decide⟩

theorem bytecode_carries_entries_strings : stringsFile.entries.keys.Nodup ∧ stringsFile.Writable ∧
    ∃ p d, Program.decode (generate [] (collect stringsFile (.ofSource strings)) (.start {} {})).1.bytes
      = .ok p ∧ p.frame.resolveTypes.2.2 = [] ∧
      (p.constants p.frame.resolveTypes.2.1 true strings.name {}).2 = {} ∧
      (Publication.descriptors p p.frame.resolveTypes.1
        (p.constants p.frame.resolveTypes.2.1 true strings.name {}).1 strings.name).run default
          = ([d], default) ∧
      d.superName = some "mx.resources:ResourceBundle" ∧
      d.vars = (descriptorOf stringsFile strings.name).vars.map fun v =>
        { v with declaringClass := d.name } := by
  have distinct : stringsFile.entries.keys.Nodup := by decide
  refine ⟨distinct, writable_stringsFile, ?_⟩
  exact bytecode_carries_entries _ _ stringsFile rfl rfl distinct writable_stringsFile true {} default

/-! ### The name of the class -/

theorem nodup_keys_readEntries {table entries : Table String String} {lines : List (Nat × List Char)}
    (distinct : table.keys.Nodup) (h : Properties.readEntries table lines = .ok entries) :
    entries.keys.Nodup := by
  induction lines generalizing table with
  | nil =>
    cases h
    exact distinct
  | cons line rest ih =>
    rw [Properties.readEntries] at h
    split at h
    next key value _ => exact ih (Table.nodup_keys_insert distinct key value) h
    next => cases h

/-- A source that is accepted has a file, under whose class name it goes, and the keys of the file are
    distinct. -/
theorem exists_file {source : Source} {cx cx' : Context}
    (accepted : parse [] source none cx = (true, some u, cx')) :
    ∃ file : PropertiesFile, u.tree = some (.properties file) ∧ u.topLevel = [file.className] ∧
      file.locale = localeOf source cx.config.locale ∧ file.bundle = source.shortName ∧
        file.entries.keys.Nodup := by
  simp only [parse, Option.filter_none] at accepted
  split at accepted
  next => cases accepted
  next entries read =>
    simp only [Extension.runAll] at accepted
    split at accepted
    next => cases accepted
    next =>
      cases accepted
      refine ⟨_, rfl, rfl, rfl, rfl, ?_⟩
      unfold readEntries at read
      repeat' split at read
      all_goals cases read
      next parsed =>
        have none : (Table.empty : Table String String).keys.Nodup := List.nodup_nil
        exact nodup_keys_readEntries none parsed

/-- A new class is registered under its name. -/
theorem contains_publishNew (table : TypeTable) (d : ClassDescriptor) (u : BuildUnit) (cx : Context) :
    (publishNew table [d] u cx).2.registry.classes.contains d.name = true := by
  let added := cx.store.add d
  have held : ((added.2.freeze added.1).bind added.1 table).descriptor? added.1 = some d := by
    have kept := (ClassStore.extends_freeze added.2 added.1).trans (ClassStore.extends_bind _ added.1 table)
    exact kept.descriptors added.1 d (cx.store.descriptor?_add d)
  have entered : (cx.registry.classes.insert d.name added.1).contains d.name = true := by
    rw [Table.contains, Table.get?_insert, if_pos rfl]
    rfl
  change (publishClass table added.1 u { cx with store := added.2 }).2.registry.classes.contains
    d.name = true
  simp only [publishClass, held]
  split <;> exact entered

theorem contains_publish {cx : Context} (tree : u.properties? = some file)
    (plain : u.hasTypeInfo = false) (ok : (publish [] u cx).2.hasErrors = false) :
    (publish [] u cx).2.registry.classes.contains file.className.text = true := by
  simp only [publish, plain, tree] at ok ⊢
  split at ok
  next =>
    rw [Context.hasErrors_error] at ok
    cases ok
  next =>
    simp only [Bool.false_eq_true, if_false, Part.finish_nil]
    exact contains_publishNew ..

/-- No character of the text would divide a name. -/
def IsUndivided (text : String) : Prop := ∀ c ∈ text.toList, c ≠ ':' ∧ c ≠ '.'

instance : DecidablePred IsUndivided := fun text =>
  inferInstanceAs (Decidable (∀ c ∈ text.toList, c ≠ ':' ∧ c ≠ '.'))

theorem isUndivided_iff (text : String) : IsUndivided text ↔ ':' ∉ text.toList ∧ '.' ∉ text.toList := by
  constructor
  · intro h
    exact ⟨fun colon => (h _ colon).1 rfl, fun dot => (h _ dot).2 rfl⟩
  · rintro ⟨colon, dot⟩ c member
    exact ⟨fun same => colon (same ▸ member), fun same => dot (same ▸ member)⟩

/-- The text of a class name is read as the name exactly if neither the locale nor the bundle divides it. -/
theorem parse_className_iff (file : PropertiesFile) :
    QName.parse file.className.text = file.className ↔ IsUndivided file.locale ∧
      IsUndivided file.bundle := by
  have text : file.className.text.toList
      = file.locale.toList ++ '$' :: file.bundle.toList ++ "_properties".toList := by
    have whole : file.className.text = file.locale ++ "$" ++ file.bundle ++ "_properties" := rfl
    rw [whole, String.toList_append, String.toList_append, String.toList_append,
      List.append_assoc file.locale.toList]
    rfl
  have outside {mark : Char} (other : mark ≠ '$') (absent : mark ∉ "_properties".toList) :
      mark ∉ file.className.text.toList ↔ mark ∉ file.locale.toList ∧ mark ∉ file.bundle.toList := by
    rw [text, List.mem_append, List.mem_append, List.mem_cons]
    tauto
  have same : QName.parse file.className.text = file.className ↔
      ':' ∉ file.className.text.toList ∧ '.' ∉ file.className.text.toList :=
    QName.parse_eq_unnamed_iff file.className.text
  rw [same, outside (by decide) (by decide), outside (by decide) (by decide), isUndivided_iff,
    isUndivided_iff]
  tauto

/-- The bytecode of a bundle defines one class.  The build registers it under the name that the source
    defines; the class itself bears the name that the text of that name is read as, and this is another one
    if the locale or the short name of the source has a colon or a dot. -/
theorem bytecode_defines_parsed_name (source : Source) (cx cx' : Context) (u : BuildUnit)
    (accepted : parse [] source none cx = (true, some u, cx'))
    (small : ∀ file ∈ u.properties?, file.Writable) :
    ∃ q p, u.topLevel = [q] ∧ p.topLevel = [QName.parse q.text] ∧ p.classNames = [QName.parse q.text] ∧
      (∀ v later, v.tree = u.tree → later.hasErrors = false →
        Program.decode (generate [] v later).1.bytes = .ok p) ∧
      (∀ v later, v.tree = u.tree → v.hasTypeInfo = false → (publish [] v later).2.hasErrors = false →
        (publish [] v later).2.registry.classes.contains q.text = true) ∧
      (p.topLevel = u.topLevel ↔
        IsUndivided (localeOf source cx.config.locale) ∧ IsUndivided source.shortName) := by
  obtain ⟨file, tree, topLevel, locale, bundle, distinct⟩ := exists_file accepted
  have readable {v : BuildUnit} (same : v.tree = u.tree) : v.properties? = some file := by
    rw [BuildUnit.properties?, same, tree]
  obtain ⟨p, c, read, shown⟩ := decode_bytecodeOf (small file (readable rfl)) distinct
  refine ⟨file.className, p, topLevel, shown.topLevel, ?_, ?_, ?_, ?_⟩
  · rw [Program.classNames, shown.classes, List.map_singleton, shown.name]
  · intro v later same ok
    rw [bytes_generate (readable same) ok]
    exact read
  · intro v later same plain ok
    exact contains_publish (readable same) plain ok
  · rw [shown.topLevel, topLevel, List.singleton_inj, parse_className_iff, locale, bundle]

theorem parse_strings : parse [] strings none (.start {} {}) =
    (true, some (collect stringsFile (.ofSource strings)), .start {} {}) := by
  have read : readEntries strings = .ok stringsFile.entries := by
    apply toOption_eq_some.1
    decide +kernel
  have locale : localeOf strings (Context.start {} {}).config.locale = "en" := by decide
  have bundle : strings.shortName = "my.strings" := by decide
  simp only [parse, Option.filter_none, read, locale, bundle]
  rfl

theorem bytecode_defines_parsed_name_strings :
    parse [] strings none (.start {} {})
        = (true, some (collect stringsFile (.ofSource strings)), .start {} {}) ∧ stringsFile.Writable ∧
      ∃ q p, [QName.unnamed "en$my.strings_properties"] = [q] ∧ p.topLevel = [QName.parse q.text] ∧
        p.classNames = [QName.parse q.text] ∧
        (∀ v later, v.tree = some (.properties stringsFile) → later.hasErrors = false →
          Program.decode (generate [] v later).1.bytes = .ok p) ∧
        (∀ v later, v.tree = some (.properties stringsFile) → v.hasTypeInfo = false →
          (publish [] v later).2.hasErrors = false →
          (publish [] v later).2.registry.classes.contains q.text = true) ∧
        (p.topLevel = [QName.unnamed "en$my.strings_properties"] ↔
          IsUndivided (localeOf strings "en_US") ∧ IsUndivided strings.shortName) := by
  have small : ∀ file ∈ (collect stringsFile (.ofSource strings)).properties?, file.Writable := by
    intro file same
    cases same
    exact writable_stringsFile
  exact ⟨parse_strings, writable_stringsFile, bytecode_defines_parsed_name strings _ _ _ parse_strings small⟩

/-- The source of texts defines one name, and its bytecode another. -/
theorem bytecode_defines_other_name :
    parse [] strings none (.start {} {})
        = (true, some (collect stringsFile (.ofSource strings)), .start {} {}) ∧
      (collect stringsFile (.ofSource strings)).topLevel = [⟨"", "en$my.strings_properties"⟩] ∧
      ∃ p, Program.decode (generate [] (collect stringsFile (.ofSource strings)) (.start {} {})).1.bytes
        = .ok p ∧ p.topLevel = [⟨"en$my", "strings_properties"⟩] ∧
          p.classNames = [⟨"en$my", "strings_properties"⟩] := by
  have distinct : stringsFile.entries.keys.Nodup := by decide
  obtain ⟨p, c, read, shown⟩ := decode_bytecodeOf writable_stringsFile distinct
  have name : QName.parse stringsFile.className.text = ⟨"en$my", "strings_properties"⟩ := by decide
  refine ⟨parse_strings, rfl, p, ?_, ?_, ?_⟩
  · rw [bytes_generate rfl rfl]
    exact read
  · rw [shown.topLevel, name]
  · rw [Program.classNames, shown.classes, List.map_singleton, shown.name, name]

end BundleFrontend

end AbcBuild
