/-
Module: AbcBuild.Proofs.Folding
Purpose: The values of initializers and the warnings about them.  Both are told slot by slot: each slot has
  at most one value, that of its own initializer, and at most one warning, which names it.
Main exports: Program.traitAt?, Program.valueOf, Program.constants_keep_numbers,
  Program.strictness_changes_warnings_only
-/
import AbcBuild.Proofs.Codec
import AbcBuild.Proofs.Log
import AbcBuild.Proofs.Mirror
import AbcBuild.Proofs.Numerals
import Mathlib.Data.Int.CharZero
import Mathlib.Data.List.Flatten

namespace AbcBuild

variable {initializer : Abc.OptionalValue} {i : Initializer} {c : ClassDef}

/-! ### Places -/

namespace Program

/-- The member at a place. -/
def traitAt? (p : Program) (ref : TraitRef) : Option TraitDef :=
  p.classes[ref.classIndex]?.bind fun c => (c.side ref.isStatic)[ref.index]?

theorem traitAt?_eq_some_iff {p : Program} {ref : TraitRef} {d : TraitDef} : p.traitAt? ref = some d ↔
    ∃ index c, (index, c) ∈ indexed p.classes ∧ (ref, d) ∈ members index c := by
  simp only [traitAt?, Option.bind_eq_some_iff, mem_indexed, mem_members]
  constructor
  · rintro ⟨c, placed, found⟩
    exact ⟨ref.classIndex, c, placed, rfl, found⟩
  · rintro ⟨_, c, placed, rfl, found⟩
    exact ⟨c, placed, found⟩

/-! Each place occurs once. -/

theorem fst_indexed (classes : List ClassDef) :
    (indexed classes).map Prod.fst = List.range' 0 classes.length := by
  rw [indexed, List.map_map]
  exact List.zipIdx_map_snd 0 classes

theorem nodup_places (p : Program) :
    ((indexed p.classes).flatMap fun placed => (members placed.1 placed.2).map Prod.fst).Nodup := by
  refine List.nodup_flatMap.2 ⟨fun placed _ => nodup_members placed.1 placed.2, ?_⟩
  have distinct : (indexed p.classes).Pairwise fun a b => a.1 ≠ b.1 := by
    rw [← List.pairwise_map, fst_indexed]
    exact List.nodup_range'
  refine distinct.imp fun {a b} other ref here there => ?_
  obtain ⟨⟨_, d⟩, member, rfl⟩ := List.mem_map.1 here
  obtain ⟨⟨ref, d'⟩, member', rfl⟩ := List.mem_map.1 there
  exact other ((mem_members.1 member).1.symm.trans (mem_members.1 member').1)

theorem mem_initializers {p : Program} : i ∈ p.initializers ↔
    ∃ index c d declared isConst, (index, c) ∈ indexed p.classes ∧ (i.ref, d) ∈ members index c ∧
      d.body = .slot declared (some i.value) isConst ∧ i.name = d.name := by
  simp only [initializers, List.mem_flatMap, List.mem_filterMap]
  constructor
  · rintro ⟨⟨index, c⟩, hplaced, ⟨ref, d⟩, hmember, hslot⟩
    simp only at hslot
    split at hslot
    next declared value isConst body =>
      cases hslot
      exact ⟨index, c, d, declared, isConst, hplaced, hmember, body, rfl⟩
    next => cases hslot
  · rintro ⟨index, c, d, declared, isConst, hplaced, hmember, body, hname⟩
    refine ⟨(index, c), hplaced, (i.ref, d), hmember, ?_⟩
    simp only [body, ← hname]

/-- The initializers are those of the slots at their places. -/
theorem mem_initializers_iff {p : Program} : i ∈ p.initializers ↔
    ∃ d declared isConst, p.traitAt? i.ref = some d ∧ d.body = .slot declared (some i.value) isConst ∧
      i.name = d.name := by
  rw [mem_initializers]
  constructor
  · rintro ⟨index, c, d, declared, isConst, placed, member, body, name⟩
    exact ⟨d, declared, isConst, traitAt?_eq_some_iff.2 ⟨index, c, placed, member⟩, body, name⟩
  · rintro ⟨d, declared, isConst, found, body, name⟩
    obtain ⟨index, c, placed, member⟩ := traitAt?_eq_some_iff.1 found
    exact ⟨index, c, d, declared, isConst, placed, member, body, name⟩

/-- A slot has one initializer. -/
theorem nodup_initializers (p : Program) : (p.initializers.map Initializer.ref).Nodup := by
  refine List.Nodup.sublist ?_ p.nodup_places
  rw [initializers, List.map_flatMap]
  refine List.Sublist.flatMap_right _ fun placed _ => ?_
  refine sublist_filterMap (fun member i made => ?_) _
  obtain ⟨ref, d⟩ := member
  simp only at made
  split at made <;> cases made
  rfl

end Program

/-! ### One constant -/

/-- The slot that a message is about. -/
def Message.slot? : Message → Option String
  | .constantMismatch name .. => some name
  | .negativeUint name _ => some name
  | _ => none

namespace Constant

variable (slot : String) {declared : String} {converted value : ConstantValue}

theorem fst_coerce (declared : QName) (value : ConstantValue) (strict : Bool) :
    (coerce slot declared value strict).1 = inType declared value := by
  unfold coerce inType
  cases declared.isUnnamed with
  | false => rfl
  | true =>
    cases hconvert : convert? declared.name value with
    | some converted => rfl
    | none =>
      simp only [Bool.not_true, Bool.false_eq_true, if_false, if_true, Option.getD_none]
      split <;> rfl

/-- A warning is about a negative number for an unsigned slot, or, if one is strict, about a value that
    neither is converted nor fits. -/
theorem snd_coerce_eq_some_iff {slot : String} {declared : QName} {strict : Bool} {message : Message} :
    (coerce slot declared value strict).2 = some message ↔
      declared.isUnnamed = true ∧
        ((∃ v, value = .int v ∧ declared.name = "uint" ∧ v.toInt < 0 ∧
          message = .negativeUint slot v.toInt) ∨
          (strict = true ∧ convert? declared.name value = none ∧ fits declared.name value = false ∧
            message = .constantMismatch slot declared.text value.typeName)) := by
  unfold coerce
  cases declared.isUnnamed with
  | false => simp
  | true =>
    simp only [Bool.not_true, Bool.false_eq_true, if_false, true_and]
    cases hconvert : convert? declared.name value with
    | some converted =>
      simp only [reduceCtorEq, false_and, and_false, or_false]
      cases value with
      | int v => grind [negative?]
      | _ => simp [negative?]
    | none =>
      have unsigned (v : Int32) (here : value = .int v) : declared.name ≠ "uint" := by
        intro name
        simp [here, name, convert?] at hconvert
      have other : ¬ ∃ v, value = .int v ∧ declared.name = "uint" ∧ v.toInt < 0 ∧
          message = .negativeUint slot v.toInt := by
        rintro ⟨v, here, name, -⟩
        exact unsigned v here name
      rw [or_iff_right other]
      cases strict <;> cases hfits : fits declared.name value <;> simp [eq_comm]

/-- What a value is converted to fits. -/
theorem fits_of_convert? (h : convert? declared value = some converted) :
    fits declared converted = true := by
  cases value with
  | int v =>
    rw [convert?] at h
    split at h
    next unsigned =>
      cases h
      subst unsigned
      rfl
    next =>
      split at h <;> cases h
      next number =>
        subst number
        rfl
  | uint v =>
    rw [convert?] at h
    split at h
    next signed =>
      cases h
      subst signed
      rfl
    next =>
      split at h <;> cases h
      next number =>
        subst number
        rfl
  | _ => cases h

/-- A signed number stays the same number, unless it is negative and becomes unsigned. -/
theorem numeral?_of_convert?_int {v : Int32} (h : convert? declared (.int v) = some converted) :
    converted.numeral? = (ConstantValue.int v).numeral? ∨ declared = "uint" ∧ v.toInt < 0 := by
  rw [convert?] at h
  split at h
  next unsigned =>
    cases h
    by_cases negative : v.toInt < 0
    · exact Or.inr ⟨unsigned, negative⟩
    · left
      rw [ConstantValue.numeral?, ConstantValue.numeral?, ← Int.cast_natCast,
        toNat_toUInt32 (not_lt.1 negative)]
  next =>
    split at h <;> cases h
    next =>
      left
      have high := v.toInt_lt
      have low := v.le_toInt
      rw [ConstantValue.numeral?, ConstantValue.numeral?, Double.numeral_ofInt (by omega)]

/-- An unsigned number stays the same number, unless it is 2^31 or more and becomes signed. -/
theorem numeral?_of_convert?_uint {v : UInt32} (h : convert? declared (.uint v) = some converted) :
    converted.numeral? = (ConstantValue.uint v).numeral? ↔ ¬ (declared = "int" ∧ 2 ^ 31 ≤ v.toNat) := by
  rw [convert?] at h
  split at h
  next signed =>
    cases h
    rw [ConstantValue.numeral?, ConstantValue.numeral?, toInt_toInt32, Option.some_inj, Numeral.finite.injEq,
      ← Int.cast_natCast (R := ℚ), Int.cast_inj]
    split <;> grind
  next unsigned =>
    split at h <;> cases h
    next =>
      have bound := v.toNat_lt
      rw [ConstantValue.numeral?, ConstantValue.numeral?, Double.numeral_ofNat (by omega)]
      simp [unsigned]

/-- An unsigned number that no int is, in a slot of type int. -/
def Wraps (type : Option QName) (value : ConstantValue) : Prop :=
  type = some (QName.unnamed "int") ∧ ∃ v, value = .uint v ∧ 2 ^ 31 ≤ v.toNat

theorem eq_unnamed_iff {q : QName} {name : String} :
    q = QName.unnamed name ↔ q.isUnnamed = true ∧ q.name = name := by
  obtain ⟨space, local'⟩ := q
  simp [QName.unnamed, QName.isUnnamed]

/-- A number that wraps becomes 2^32 less. -/
theorem Wraps.numeral? {type : Option QName} {v : UInt32} (h : Wraps type (.uint v)) :
    (type.elim (.uint v) fun q => inType q (.uint v)).numeral?
    = some (.finite ((v.toNat : ℚ) - 2 ^ 32)) := by
  obtain ⟨rfl, v', unsigned, large⟩ := h
  cases unsigned
  have negative : ¬ v.toNat < 2 ^ 31 := by omega
  have wrapped : (v.toInt32.toInt : ℚ) = (v.toNat : ℚ) - 2 ^ 32 := by
    rw [toInt_toInt32, if_neg negative]
    push_cast
    rfl
  rw [← wrapped]
  rfl

theorem numeral?_of_ofPool {pool : Abc.ConstantPool}
    (read : ofPool pool initializer = .ok value) (number : initializer.kind ∈ [.int, .uint, .double]) :
    value.numeral?.isSome = true := by
  obtain ⟨kind, index⟩ := initializer
  simp only [List.mem_cons, List.not_mem_nil, or_false] at number
  rcases number with rfl | rfl | rfl
  all_goals
    obtain ⟨constant, -, rfl⟩ := map_eq_ok.1 read
    rfl

/-- A number is the same number in its declared type, or there is a warning; unless it is an unsigned number
    that wraps. -/
theorem same_number_or_warned_iff (declared : QName) (strict : Bool)
    (number : value.numeral?.isSome = true) :
    ((inType declared value).numeral? = value.numeral? ∨
        ∃ message, (coerce slot declared value strict).2 = some message) ↔
        ¬ Wraps (some declared) value := by
  -- a value that is not converted is the same number, and does not wrap
  have kept (same : inType declared value = value)
      (other : ∀ v, value = .uint v → ¬ (declared.isUnnamed = true ∧ declared.name = "int")) :
      ((inType declared value).numeral? = value.numeral? ∨
        ∃ message, (coerce slot declared value strict).2 = some message) ↔
        ¬ Wraps (some declared) value := by
    refine iff_of_true (Or.inl (congrArg ConstantValue.numeral? same)) ?_
    rintro ⟨here, v, unsigned, -⟩
    exact other v unsigned (eq_unnamed_iff.1 (Option.some.inj here))
  cases unnamed : declared.isUnnamed with
  | false => exact kept (by simp [inType, unnamed]) (by simp [unnamed])
  | true =>
    have taken : inType declared value = (convert? declared.name value).getD value := if_pos unnamed
    cases converts : convert? declared.name value with
    | none =>
      refine kept (by rw [taken, converts, Option.getD_none]) fun v unsigned signed => ?_
      rw [unsigned, convert?, if_pos signed.2] at converts
      cases converts
    | some converted =>
      rw [taken, converts, Option.getD_some]
      cases value with
      | int v =>
        refine iff_of_true ?_ (by simp [Wraps])
        refine (numeral?_of_convert?_int converts).imp_right fun negative => ?_
        exact ⟨_, snd_coerce_eq_some_iff.2 ⟨unnamed, Or.inl ⟨v, rfl, negative.1, negative.2, rfl⟩⟩⟩
      | uint v =>
        have silent : ¬ ∃ message, (coerce slot declared (.uint v) strict).2 = some message := by
          rintro ⟨message, warned⟩
          rcases (snd_coerce_eq_some_iff.1 warned).2 with ⟨_, other, -⟩ | ⟨-, stays, -⟩
          · cases other
          · rw [stays] at converts
            cases converts
        rw [or_iff_left silent, numeral?_of_convert?_uint converts, Wraps, Option.some_inj, eq_unnamed_iff]
        simp [unnamed]
      | _ => cases converts

/-- If one is strict, a value fits its type in the end, or there is a warning. -/
theorem fits_or_warned {declared : QName} (unnamed : declared.isUnnamed = true) (value : ConstantValue) :
    fits declared.name (coerce slot declared value true).1 = true ∨
      ∃ message, (coerce slot declared value true).2 = some message := by
  rw [fst_coerce, inType, if_pos unnamed]
  cases hconvert : convert? declared.name value with
  | some converted => exact Or.inl (fits_of_convert? hconvert)
  | none =>
    cases hfits : fits declared.name value with
    | true => exact Or.inl hfits
    | false =>
      exact Or.inr ⟨_, snd_coerce_eq_some_iff.2 ⟨unnamed, Or.inr ⟨rfl, hconvert, hfits, rfl⟩⟩⟩

end Constant

/-! ### All initializers -/

namespace Program

/-- The value that an initializer has under the types of slots. -/
def valueOf (p : Program) (types : SlotTypes) (i : Initializer) : Option ConstantValue :=
  (Constant.ofPool p.pool i.value).toOption.map fun value =>
    (types.get? i.ref).elim value fun q => Constant.inType q value

/-- The warning that an initializer gives under the types of slots. -/
def warningOf (p : Program) (types : SlotTypes) (strict : Bool) (i : Initializer) : Option Message :=
  (p.evaluate types strict i).bind Prod.snd

/-- The warnings that folding gives, each with the place of the slot that it is about. -/
def warnings (p : Program) (types : SlotTypes) (strict : Bool) : List (TraitRef × Message) :=
  p.initializers.filterMap fun i => (p.warningOf types strict i).map fun message => (i.ref, message)

/-- A warning as it is logged. -/
def logged (source : String) (warning : TraitRef × Message) : Diagnostic :=
  { severity := .warning, message := warning.2, source := some source }

variable (p : Program) (types : SlotTypes) (strict : Bool) (source : String) {message : Message} (log : Log)
variable {ref : TraitRef} {d : TraitDef} {declared : Option Name} {isConst : Bool}

theorem fst_evaluate (i : Initializer) : (p.evaluate types strict i).map Prod.fst = p.valueOf types i := by
  unfold evaluate valueOf
  cases Constant.ofPool p.pool i.value with
  | error e => rfl
  | ok value =>
    cases types.get? i.ref with
    | none => rfl
    | some declared => exact congrArg some (Constant.fst_coerce i.name declared value strict)

theorem warningOf_eq_some_iff {p : Program} {types : SlotTypes} {strict : Bool} :
    p.warningOf types strict i = some message ↔ ∃ type value, types.get? i.ref = some type ∧
      Constant.ofPool p.pool i.value = .ok value ∧
        (Constant.coerce i.name type value strict).2 = some message := by
  unfold warningOf evaluate
  cases Constant.ofPool p.pool i.value with
  | error e => simp
  | ok value => cases types.get? i.ref <;> simp

theorem isClash_warningOf {p : Program} {types : SlotTypes} {strict : Bool}
    (h : p.warningOf types strict i = some message) : message.isClash = false := by
  obtain ⟨type, value, -, -, warned⟩ := warningOf_eq_some_iff.1 h
  obtain ⟨-, ⟨_, -, -, -, rfl⟩ | ⟨-, -, -, rfl⟩⟩ := Constant.snd_coerce_eq_some_iff.1 warned
  · rfl
  · rfl

/-- Folding enters the values and logs the warnings, slot by slot. -/
theorem constants_run :
    p.constants types strict source log =
      (Table.empty.insertAll (p.initializers.filterMap fun i => (p.valueOf types i).map fun value =>
        (i.ref, value)), log.addAll ((p.warnings types strict).map (logged source))) := by
  unfold constants warnings
  generalize p.initializers = pending
  generalize (Table.empty : Table TraitRef ConstantValue) = values
  induction pending generalizing values log with
  | nil => rfl
  | cons i rest ih =>
    have value := p.fst_evaluate types strict i
    cases made : p.evaluate types strict i with
    | none =>
      have silent : p.warningOf types strict i = none := by rw [warningOf, made, Option.bind_none]
      rw [made, Option.map_none] at value
      simpa [made, ← value, silent] using ih log values
    | some result =>
      obtain ⟨constant, warning⟩ := result
      have here : p.warningOf types strict i = warning := by rw [warningOf, made, Option.bind_some]
      rw [made, Option.map_some] at value
      rw [List.foldl_cons, made]
      refine (ih (warn log source warning) (values.insert i.ref constant)).trans ?_
      cases warning with
      | none => simp [← value, here, Table.insertAll, warn]
      | some message => simp [← value, here, Table.insertAll, warn, Log.addAll, Log.report, logged]

/-- The values, and warnings about some of them. -/
theorem constants_eq :
    (p.constants types strict source log).1 =
        Table.empty.insertAll (p.initializers.filterMap fun i => (p.valueOf types i).map fun value =>
          (i.ref, value)) ∧
      log.GrowsBy Diagnostic.IsAside (p.constants types strict source log).2 := by
  rw [constants_run]
  refine ⟨rfl, _, rfl, fun d member => ?_⟩
  obtain ⟨⟨ref, message⟩, warned, rfl⟩ := List.mem_map.1 member
  obtain ⟨i, -, made⟩ := List.mem_filterMap.1 warned
  obtain ⟨message, given, same⟩ := Option.map_eq_some_iff.1 made
  cases same
  exact ⟨rfl, isClash_warningOf given⟩

/-- A slot has the value of its own initializer. -/
theorem get?_constants_at {initializer : Option Abc.OptionalValue} (found : p.traitAt? ref = some d)
    (body : d.body = .slot declared initializer isConst) :
    (p.constants types strict source log).1.get? ref = initializer.bind fun i =>
    p.valueOf types ⟨ref, d.name, i⟩ := by
  rw [constants_run]
  refine Table.get?_insertAll_eq fun value => ?_
  simp only [List.mem_filterMap, Option.map_eq_some_iff, Prod.mk.injEq, Option.bind_eq_some_iff]
  constructor
  · rintro ⟨i, listed, value', hvalue, rfl, rfl⟩
    obtain ⟨d', declared', isConst', found', body', name⟩ := mem_initializers_iff.1 listed
    rw [found] at found'
    cases found'
    rw [body] at body'
    cases body'
    exact ⟨i.value, rfl, hvalue⟩
  · rintro ⟨i, rfl, hvalue⟩
    refine ⟨⟨ref, d.name, i⟩, mem_initializers_iff.2 ?_, value, hvalue, rfl, rfl⟩
    exact ⟨d, declared, isConst, found, body, rfl⟩

theorem get?_constants_of_ok {value : ConstantValue} (found : p.traitAt? ref = some d)
    (body : d.body = .slot declared (some initializer) isConst)
    (read : Constant.ofPool p.pool initializer = .ok value) :
    (p.constants types strict source log).1.get? ref =
      some ((types.get? ref).elim value fun q => Constant.inType q value) := by
  rw [p.get?_constants_at types strict source log found body, Option.bind_some, valueOf, read]
  rfl

theorem get?_constants {index : Nat} {initializer : Option Abc.OptionalValue}
    (hplaced : (index, c) ∈ indexed p.classes) (hmember : (ref, d) ∈ members index c)
    (hbody : d.body = .slot declared initializer isConst) :
    (p.constants types strict source log).1.get? ref = initializer.bind fun i =>
    p.valueOf types ⟨ref, d.name, i⟩ :=
  p.get?_constants_at types strict source log (traitAt?_eq_some_iff.2 ⟨index, c, hplaced, hmember⟩) hbody

/-! ### Warnings by slot -/

/-- The warnings about the slot at a place. -/
def warningsAt (p : Program) (types : SlotTypes) (strict : Bool) (ref : TraitRef) : List Message :=
  ((p.warnings types strict).filter fun warning => warning.1 = ref).map Prod.snd

/-- No slot has two warnings. -/
theorem length_warningsAt_le (ref : TraitRef) : (p.warningsAt types strict ref).length ≤ 1 := by
  have distinct : ((p.warnings types strict).map Prod.fst).Nodup := by
    refine List.Nodup.sublist ?_ p.nodup_initializers
    refine sublist_filterMap (fun i warning made => ?_) _
    obtain ⟨message, -, rfl⟩ := Option.map_eq_some_iff.1 made
    rfl
  calc (p.warningsAt types strict ref).length
      = ((p.warnings types strict).map Prod.fst).count ref := by
        rw [warningsAt, List.length_map, List.count_eq_countP, List.countP_map, List.countP_eq_length_filter]
        rfl
    _ ≤ 1 := List.nodup_iff_count_le_one.1 distinct ref

variable {p types strict}

/-- The warnings about a slot are those that taking its initializer over into its type gives. -/
theorem mem_warningsAt : message ∈ p.warningsAt types strict ref ↔
    ∃ d declared initializer isConst type value, p.traitAt? ref = some d ∧
      d.body = .slot declared (some initializer) isConst ∧ types.get? ref = some type ∧
      Constant.ofPool p.pool initializer = .ok value ∧
      (Constant.coerce d.name type value strict).2 = some message := by
  simp only [warningsAt, warnings, List.mem_map, List.mem_filter, List.mem_filterMap, Option.map_eq_some_iff,
    decide_eq_true_eq]
  constructor
  · rintro ⟨_, ⟨⟨i, listed, message, given, rfl⟩, rfl⟩, rfl⟩
    obtain ⟨d, declared, isConst, found, body, name⟩ := mem_initializers_iff.1 listed
    obtain ⟨type, value, typed, read, warned⟩ := warningOf_eq_some_iff.1 given
    exact ⟨d, declared, i.value, isConst, type, value, found, body, typed, read, name ▸ warned⟩
  · rintro ⟨d, declared, initializer, isConst, type, value, found, body, typed, read, warned⟩
    have listed : (⟨ref, d.name, initializer⟩ : Initializer) ∈ p.initializers :=
      mem_initializers_iff.2 ⟨d, declared, isConst, found, body, rfl⟩
    have given : p.warningOf types strict ⟨ref, d.name, initializer⟩ = some message :=
      warningOf_eq_some_iff.2 ⟨type, value, typed, read, warned⟩
    exact ⟨(ref, message), ⟨⟨_, listed, message, given, rfl⟩, rfl⟩, rfl⟩

theorem mem_warningsAt_of_ok {value : ConstantValue} (found : p.traitAt? ref = some d)
    (body : d.body = .slot declared (some initializer) isConst)
    (read : Constant.ofPool p.pool initializer = .ok value) :
    message ∈ p.warningsAt types strict ref ↔
      ∃ type, types.get? ref = some type ∧ (Constant.coerce d.name type value strict).2 = some message := by
  rw [mem_warningsAt]
  constructor
  · rintro ⟨d', declared', initializer', isConst', type, value', found', body', typed, read', warned⟩
    rw [found] at found'
    cases found'
    rw [body] at body'
    cases body'
    rw [read] at read'
    cases read'
    exact ⟨type, typed, warned⟩
  · rintro ⟨type, typed, warned⟩
    exact ⟨d, declared, initializer, isConst, type, value, found, body, typed, read, warned⟩

/-- If one is not strict, the warnings are about negative numbers in unsigned slots. -/
theorem mem_warningsAt_false : message ∈ p.warningsAt types false ref ↔
    ∃ d declared initializer isConst v, p.traitAt? ref = some d ∧
      d.body = .slot declared (some initializer) isConst ∧ types.get? ref = some (QName.unnamed "uint") ∧
      Constant.ofPool p.pool initializer = .ok (.int v) ∧ v.toInt < 0 ∧
        message = .negativeUint d.name v.toInt := by
  rw [mem_warningsAt]
  constructor
  · rintro ⟨d, declared, initializer, isConst, type, value, found, body, typed, read, warned⟩
    obtain ⟨unnamed, ⟨v, rfl, name, negative, rfl⟩ | ⟨strict, -⟩⟩ := Constant.snd_coerce_eq_some_iff.1 warned
    · rw [Constant.eq_unnamed_iff.2 ⟨unnamed, name⟩] at typed
      exact ⟨d, declared, initializer, isConst, v, found, body, typed, read, negative, rfl⟩
    · cases strict
  · rintro ⟨d, declared, initializer, isConst, v, found, body, typed, read, negative, rfl⟩
    refine ⟨d, declared, initializer, isConst, _, _, found, body, typed, read, ?_⟩
    exact Constant.snd_coerce_eq_some_iff.2 ⟨rfl, Or.inl ⟨v, rfl, rfl, negative, rfl⟩⟩

/-- A warning names the slot that it is about. -/
theorem slot?_of_mem_warningsAt (h : message ∈ p.warningsAt types strict ref) :
    ∃ d, p.traitAt? ref = some d ∧ message.slot? = some d.name := by
  obtain ⟨d, _, _, _, _, _, found, -, -, -, warned⟩ := mem_warningsAt.1 h
  refine ⟨d, found, ?_⟩
  obtain ⟨-, ⟨_, -, -, -, rfl⟩ | ⟨-, -, -, rfl⟩⟩ := Constant.snd_coerce_eq_some_iff.1 warned
  · rfl
  · rfl

/-- Numbers keep what they stand for when they are folded, or there is a warning that names the slot; unless
    an unsigned number of 2^31 or more stands in an int slot.  Such a number silently becomes 2^32 less. -/
theorem constants_keep_numbers (p : Program) (types : SlotTypes) (strict : Bool) (source : String)
    (log : Log) {ref : TraitRef} {d : TraitDef} {declared : Option Name} {initializer : Abc.OptionalValue}
    {isConst : Bool} {value : ConstantValue} (found : p.traitAt? ref = some d)
    (body : d.body = .slot declared (some initializer) isConst)
    (number : initializer.kind ∈ [.int, .uint, .double])
    (read : Constant.ofPool p.pool initializer = .ok value) :
    (p.constants types strict source log).2 = log.addAll ((p.warnings types strict).map (logged source)) ∧
      ∃ folded, (p.constants types strict source log).1.get? ref = some folded ∧
        ((folded.numeral? = value.numeral? ∨ ∃ message ∈ p.warningsAt types strict ref,
          message.slot? = some d.name) ↔ ¬ Constant.Wraps (types.get? ref) value) ∧
        ∀ v, Constant.Wraps (types.get? ref) value → value = .uint v →
          folded.numeral? = some (.finite ((v.toNat : ℚ) - 2 ^ 32)) := by
  refine ⟨congrArg Prod.snd (p.constants_run types strict source log), _,
    p.get?_constants_of_ok types strict source log found body read, ?_, ?_⟩
  · have named : (∃ message ∈ p.warningsAt types strict ref, message.slot? = some d.name) ↔
        ∃ message, message ∈ p.warningsAt types strict ref := by
      refine exists_congr fun message => and_iff_left_of_imp fun warned => ?_
      obtain ⟨d', found', name⟩ := slot?_of_mem_warningsAt warned
      rw [found] at found'
      cases found'
      exact name
    rw [named]
    simp only [mem_warningsAt_of_ok found body read]
    cases typed : types.get? ref with
    | none => simp [Constant.Wraps]
    | some type =>
      have here :=
        Constant.same_number_or_warned_iff d.name type strict (Constant.numeral?_of_ofPool read number)
      simpa using here
  · rintro v wraps rfl
    exact wraps.numeral?

/-- A class with a negative unsigned constant, and with an int constant that is too large. -/
def limits : Program where
  file := { pool := { ints := [-1], uints := [4294967295] } }
  classes := [
    { name := ⟨"", "Limits"⟩
      isPublic := true
      superName := none
      interfaces := []
      flags := Abc.InstanceFlag.sealed
      metadata := []
      instanceTraits := []
      staticTraits := [
        ⟨"LOWEST", "", "", .slot (some (.qualified ⟨"", "uint"⟩)) (some ⟨.int, 1⟩) true, false, false, []⟩,
        ⟨"HIGHEST", "", "", .slot (some (.qualified ⟨"", "int"⟩)) (some ⟨.uint, 1⟩) true, false,
        false, []⟩] }]
  definitions := []
  topLevel := [⟨"", "Limits"⟩]

/-- The negative constant becomes a large one, and is reported. -/
theorem constants_keep_numbers_limits :
    ∃ folded, (limits.constants limits.frame.resolveTypes.2.1 true "limits.abc" {}).1.get? ⟨0, true, 0⟩
        = some folded ∧ (folded.numeral? = some (.finite (-1)) ∨
        ∃ message ∈ limits.warningsAt limits.frame.resolveTypes.2.1 true ⟨0, true, 0⟩,
          message.slot? = some "LOWEST") := by
  obtain ⟨-, folded, valued, kept, -⟩ :=
    constants_keep_numbers limits limits.frame.resolveTypes.2.1 true "limits.abc" {}
    (show limits.traitAt? ⟨0, true, 0⟩ = some _ from rfl) rfl (by decide)
    (show Constant.ofPool limits.pool ⟨.int, 1⟩ = .ok (.int (-1)) from rfl)
  refine ⟨folded, valued, kept.2 ?_⟩
  rintro ⟨-, _, other, -⟩
  cases other

/-- The constant that is too large becomes a negative one, and only the other one is reported. -/
theorem unsigned_constant_wraps :
    Constant.ofPool limits.pool ⟨.uint, 1⟩ = .ok (.uint 4294967295) ∧
      (limits.constants limits.frame.resolveTypes.2.1 true "limits.abc" {}).1.get? ⟨0, true, 1⟩
        = some (.int (-1)) ∧
      (ConstantValue.int (-1)).numeral? ≠ (ConstantValue.uint 4294967295).numeral? ∧
      (limits.constants limits.frame.resolveTypes.2.1 true "limits.abc" {}).2.entries =
        [⟨.warning, .negativeUint "LOWEST" (-1), some "limits.abc", 0, 0⟩] := by
  refine ⟨rfl, ?_, ?_, ?_⟩
  · decide
  · decide
  · decide

/-- The value that a slot is folded to is that of an initializer. -/
theorem initializer_of_get?_constants {source : String} {log : Log} {folded : ConstantValue}
    (h : (p.constants types strict source log).1.get? ref = some folded) :
    ∃ d declared initializer isConst value, p.traitAt? ref = some d ∧
      d.body = .slot declared (some initializer) isConst ∧ Constant.ofPool p.pool initializer = .ok value ∧
      folded = (types.get? ref).elim value fun q => Constant.inType q value := by
  rw [constants_run] at h
  have entered := Table.mem_of_get?_insertAll h
  obtain ⟨i, listed, made⟩ := List.mem_filterMap.1 entered
  obtain ⟨value, valued, same⟩ := Option.map_eq_some_iff.1 made
  cases same
  obtain ⟨d, declared, isConst, found, body, -⟩ := mem_initializers_iff.1 listed
  obtain ⟨constant, read, rfl⟩ := Option.map_eq_some_iff.1 valued
  exact ⟨d, declared, i.value, isConst, constant, found, body, toOption_eq_some.1 read, rfl⟩

/-- To be strict changes no value, only the warnings.  No slot has two warnings, and each names its slot.  If
    one is strict, each value in a type of the unnamed package fits that type, or there is one warning about
    it.  If one is not, the warnings are those about negative numbers in unsigned slots. -/
theorem strictness_changes_warnings_only (p : Program) (types : SlotTypes) (source : String) (log : Log) :
    (p.constants types true source log).1 = (p.constants types false source log).1 ∧
      (∀ strict, (p.constants types strict source log).2
          = log.addAll ((p.warnings types strict).map (logged source)) ∧
        ∀ ref, (p.warningsAt types strict ref).length ≤ 1 ∧ ∀ message ∈ p.warningsAt types strict ref,
          ∃ d, p.traitAt? ref = some d ∧ message.slot? = some d.name) ∧
      (∀ ref declared value, types.get? ref = some declared → declared.isUnnamed = true →
        (p.constants types true source log).1.get? ref = some value →
          Constant.fits declared.name value = true ∨ (p.warningsAt types true ref).length = 1) ∧
      ∀ ref message, message ∈ p.warningsAt types false ref ↔
        ∃ d declared initializer isConst v, p.traitAt? ref = some d ∧
          d.body = .slot declared (some initializer) isConst ∧ types.get? ref = some (QName.unnamed "uint") ∧
          Constant.ofPool p.pool initializer = .ok (.int v) ∧ v.toInt < 0 ∧
          message = .negativeUint d.name v.toInt := by
  refine ⟨?_, fun strict => ⟨?_, fun ref => ⟨?_, fun message => slot?_of_mem_warningsAt⟩⟩, ?_, ?_⟩
  · rw [constants_run, constants_run]
  · rw [constants_run]
  · exact p.length_warningsAt_le types strict ref
  · intro ref declared folded typed unnamed valued
    obtain ⟨d, _, initializer, _, value, found, body, read, rfl⟩ := initializer_of_get?_constants valued
    rw [typed, Option.elim_some, ← Constant.fst_coerce d.name declared value true]
    refine (Constant.fits_or_warned d.name unnamed value).imp_right ?_
    rintro ⟨message, warned⟩
    have listed : message ∈ p.warningsAt types true ref :=
      (mem_warningsAt_of_ok found body read).2 ⟨declared, typed, warned⟩
    exact Nat.le_antisymm (p.length_warningsAt_le types true ref) (List.length_pos_of_mem listed)
  · exact fun ref message => mem_warningsAt_false

end Program

end AbcBuild
