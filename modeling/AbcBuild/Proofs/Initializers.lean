/-
Module: AbcBuild.Proofs.Initializers
Purpose: What becomes of an initializer.  Reading a block follows every reference that stands in it but those
  of initializers, so a block may be read whose pool does not hold a constant that a slot starts with.
Main exports: Abc.ConstantPool.Holds, Constant.exists_ofPool_iff, Program.index_ne_zero_of_decode,
  Program.initializer_kept_iff_held
-/
import AbcBuild.Proofs.Folding
import AbcBuild.Proofs.Format
import AbcBuild.Proofs.Members

namespace AbcBuild

/-! ### The constants of a pool -/

namespace Abc.ConstantPool

/-- The pool holds a constant: the table of its kind has an entry at its index, and a namespace has a name.
    Constants that are told by their kind alone need no entry. -/
def Holds (pool : ConstantPool) (constant : OptionalValue) : Prop :=
  match constant.kind with
  | .int => constant.index ≤ pool.ints.length
  | .uint => constant.index ≤ pool.uints.length
  | .double => constant.index ≤ pool.doubles.length
  | .string => constant.index ≤ pool.strings.length
  | .space _ => ∃ space, pool.spaces[constant.index - 1]? = some space ∧ space.name ≤ pool.strings.length
  | .undefined | .null | .true | .false => True

theorem entry_eq_ok_iff {α : Type} {table : TableKind} {items : List α} {index : Nat} {item : α} :
    entry table items index = .ok item ↔ index ≠ 0 ∧ items[index - 1]? = some item := by
  cases index with
  | zero => simp [entry]
  | succ index =>
    rw [entry, Nat.add_sub_cancel]
    cases items[index]? <;> simp

theorem exists_entry_iff {α : Type} {table : TableKind} {items : List α} {index : Nat} (some : index ≠ 0) :
    (∃ item, entry table items index = .ok item) ↔ index ≤ items.length := by
  simp only [entry_eq_ok_iff, ne_eq, some, not_false_eq_true, true_and, ← Option.isSome_iff_exists,
    isSome_getElem?]
  omega

theorem exists_string_iff {pool : ConstantPool} {index : Nat} :
    (∃ text, pool.string index = .ok text) ↔ index ≤ pool.strings.length := by
  unfold string
  split
  next none => simp [none]
  next some => exact exists_entry_iff some

end Abc.ConstantPool

/-- A constant can be read just if the pool holds it. -/
theorem Constant.exists_ofPool_iff {pool : Abc.ConstantPool} {constant : Abc.OptionalValue}
    (some : constant.index ≠ 0) : (∃ value, ofPool pool constant = .ok value) ↔ pool.Holds constant := by
  have table {α : Type} {make : α → ConstantValue} {read : Except DecodeError α} :
      (∃ value, read.map make = .ok value) ↔ ∃ a, read = .ok a := by
    cases read <;> simp [Except.map]
  obtain ⟨kind, index⟩ := constant
  unfold ofPool Abc.ConstantPool.Holds
  cases kind with
  | int | uint | double => exact table.trans (Abc.ConstantPool.exists_entry_iff some)
  | string => exact table.trans Abc.ConstantPool.exists_string_iff
  | space kind =>
    simp only [bind_eq_ok, Abc.ConstantPool.space, Abc.ConstantPool.entry_eq_ok_iff]
    constructor
    · rintro ⟨_, space, ⟨-, found⟩, uri, named, -⟩
      exact ⟨space, found, Abc.ConstantPool.exists_string_iff.1 ⟨uri, named⟩⟩
    · rintro ⟨space, found, within⟩
      obtain ⟨uri, named⟩ := Abc.ConstantPool.exists_string_iff.2 within
      exact ⟨.space uri, space, ⟨some, found⟩, uri, named, rfl⟩
  | undefined | null | true | false => exact iff_of_true ⟨_, rfl⟩ trivial

/-! ### The initializers of a block that was read -/

namespace Program

/-- Index 0 stands for no initializer, so no initializer that was read has it. -/
theorem index_ne_zero_of_decode {bytes : List UInt8} {p : Program} (decoded : decode bytes = .ok p)
    {ref : TraitRef} {d : TraitDef} {declared : Option Name} {initializer : Abc.OptionalValue}
    {isConst : Bool} (found : p.traitAt? ref = some d)
    (body : d.body = .slot declared (some initializer) isConst) :
    initializer.index ≠ 0 := by
  obtain ⟨file, read, resolved⟩ := bind_eq_ok.1 decoded
  obtain ⟨-, -, valid, -⟩ := Abc.File.took_of_decode read
  obtain ⟨length, along⟩ := traits_resolved resolved
  obtain ⟨c, placed, listed⟩ := Option.bind_eq_some_iff.1 found
  have within : ref.classIndex < file.instances.length := length ▸ (List.getElem?_eq_some_iff.1 placed).1
  obtain ⟨c', placed', traits⟩ := along ref.classIndex _ (List.getElem?_eq_getElem within)
  cases placed.symm.trans placed'
  have member : d ∈ c.traits := by
    have onSide := List.mem_of_getElem? listed
    unfold ClassDef.side at onSide
    split at onSide
    · exact List.mem_append_right _ onSide
    · exact List.mem_append_left _ onSide
  obtain ⟨trait, side, defined⟩ := Abc.exists_of_forall₂ traits member
  have wellFormed : trait.WellFormed := by
    rcases List.mem_append.1 side with onInstances | onClass
    · exact (valid.instances.2 _ (List.getElem_mem within)).traits.2 trait onInstances
    · cases held : file.classes[ref.classIndex]? with
      | none =>
        rw [held] at onClass
        cases onClass
      | some scope =>
        rw [held] at onClass
        exact (valid.classes scope (List.mem_of_getElem? held)).traits.2 trait onClass
  have inside := wellFormed.data
  have made := Resolve.bodyOf_traitDef defined
  rw [body] at made
  generalize trait.data = data at inside made
  cases made
  exact (inside.2.2 initializer rfl).2

/-- In a program that was read, an initializer gives its slot a value or a warning just if the pool holds the
    constant that it refers to.  Any other one is dropped without a word. -/
theorem initializer_kept_iff_held {bytes : List UInt8} {p : Program} (decoded : decode bytes = .ok p)
    (types : SlotTypes) (strict : Bool) (source : String) (log : Log) {ref : TraitRef} {d : TraitDef}
    {declared : Option Name} {initializer : Abc.OptionalValue} {isConst : Bool}
    (found : p.traitAt? ref = some d)
    (body : d.body = .slot declared (some initializer) isConst) :
    (p.constants types strict source log).2 = log.addAll ((p.warnings types strict).map (logged source)) ∧
      (((∃ value, (p.constants types strict source log).1.get? ref = some value) ∨
          ∃ message, message ∈ p.warningsAt types strict ref) ↔ p.pool.Holds initializer) := by
  refine ⟨congrArg Prod.snd (p.constants_run types strict source log), ?_⟩
  rw [← Constant.exists_ofPool_iff (index_ne_zero_of_decode decoded found body)]
  constructor
  · intro kept
    -- a value and a warning both come from the initializer of the slot at the place
    have own : ∃ d' declared' initializer' isConst' value, p.traitAt? ref = some d' ∧
        d'.body = .slot declared' (some initializer') isConst' ∧
          Constant.ofPool p.pool initializer' = .ok value := by
      rcases kept with ⟨value, valued⟩ | ⟨message, warned⟩
      · obtain ⟨d', declared', initializer', isConst', constant, found', body', read, -⟩ :=
          initializer_of_get?_constants valued
        exact ⟨d', declared', initializer', isConst', constant, found', body', read⟩
      · obtain ⟨d', declared', initializer', isConst', _, constant, found', body', -, read, -⟩ :=
          mem_warningsAt.1 warned
        exact ⟨d', declared', initializer', isConst', constant, found', body', read⟩
    obtain ⟨d', declared', initializer', isConst', value, found', body', read⟩ := own
    rw [found] at found'
    cases found'
    rw [body] at body'
    cases body'
    exact ⟨value, read⟩
  · rintro ⟨value, read⟩
    exact Or.inl ⟨_, p.get?_constants_of_ok types strict source log found body read⟩

/-- A block with two slots `a` and `b` that start with integers, of which the pool holds just the first. -/
def dangling : Abc.File where
  pool :=
    { ints := [7]
      strings := ["A", "a", "b"]
      spaces := [⟨.packageSpace, 0⟩]
      multinames := [.qname false 1 1, .qname false 1 2, .qname false 1 3] }
  instances := [
    { name := 1
      superName := 0
      flags := 0
      protectedSpace := none
      interfaces := []
      init := 0
      traits := [⟨2, 0, .slot true 0 0 (some ⟨.int, 1⟩), []⟩, ⟨3, 0, .slot true 0 0 (some ⟨.int, 2⟩), []⟩] }]
  classes := [⟨0, []⟩]
  scripts := [⟨0, [⟨1, 0, .classRef 0 0, []⟩]⟩]

/-- The program of that block. -/
def danglingProgram : Program where
  file := dangling
  classes := [
    { name := ⟨"", "A"⟩
      isPublic := true
      superName := none
      interfaces := []
      flags := 0
      metadata := []
      instanceTraits := [
        ⟨"a", "", "", .slot none (some ⟨.int, 1⟩) true, false, false, []⟩,
        ⟨"b", "", "", .slot none (some ⟨.int, 2⟩) true, false, false, []⟩]
      staticTraits := [] }]
  definitions := []
  topLevel := [⟨"", "A"⟩]

theorem decode_dangling : decode dangling.encode = .ok danglingProgram := by
  rfl

/-- The first of the two initializers is kept. -/
theorem initializer_kept_iff_held_dangling :
    (∃ value, (danglingProgram.constants .empty true "a.abc" {}).1.get? ⟨0, false, 0⟩ = some value) ∨
      ∃ message, message ∈ danglingProgram.warningsAt .empty true ⟨0, false, 0⟩ := by
  have kept := (initializer_kept_iff_held decode_dangling .empty true "a.abc" {}
    (show danglingProgram.traitAt? ⟨0, false, 0⟩ = some _ from rfl) rfl).2
  refine kept.2 ?_
  show 1 ≤ 1
  exact Nat.le_refl 1

/-- The second one has neither a value nor a diagnostic. -/
theorem initializer_lost :
    (∃ bytes, decode bytes = .ok danglingProgram) ∧
      (danglingProgram.traitAt? ⟨0, false, 1⟩).map TraitDef.body = some (.slot none (some ⟨.int, 2⟩) true) ∧
      (danglingProgram.constants .empty true "a.abc" {}).1.get? ⟨0, false, 1⟩ = none ∧
      (danglingProgram.constants .empty true "a.abc" {}).2 = {} := by
  refine ⟨⟨_, decode_dangling⟩, rfl, ?_, ?_⟩
  · decide
  · decide

end Program

end AbcBuild
