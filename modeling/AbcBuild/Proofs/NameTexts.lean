/-
Module: AbcBuild.Proofs.NameTexts
Purpose: Names as texts.  The colon between namespace and local name is the last one, or it is not found
  again.  The arguments of a parametrised type are written out in its local name, so the text of such a name
  can be read back only if none of them is written with a colon.
Main exports: QName.parse_text_iff, Name.Unnamed, Resolve.colon_mem_localName, Resolve.names_parse_back
-/
import AbcBuild.Proofs.Readings
import AbcBuild.Proofs.TextSize

namespace AbcBuild

/-! ### Texts with separators -/

namespace Text

theorem splitLast?_append {mark : Char} {after : List Char} (last : mark ∉ after) (before : List Char) :
    splitLast? mark (before ++ mark :: after) = some (before, after) := by
  induction before with
  | nil => rw [List.nil_append, splitLast?, splitLast?_eq_none_iff.2 last, if_pos rfl]
  | cons c before ih => rw [List.cons_append, splitLast?, ih]

theorem splitFirst?_append {mark : Char} {before : List Char} (first : mark ∉ before) (after : List Char) :
    splitFirst? mark (before ++ mark :: after) = some (before, after) := by
  induction before with
  | nil => simp [splitFirst?]
  | cons c before ih =>
    rw [List.mem_cons, not_or] at first
    have other : c ≠ mark := fun same => first.1 same.symm
    simp [splitFirst?, other, ih first.2]

theorem mem_joinWith {separator : String} {c : Char} (other : c ∉ separator.toList) (texts : List String) :
    c ∈ (joinWith separator texts).toList ↔ ∃ text ∈ texts, c ∈ text.toList := by
  fun_induction joinWith separator texts with
  | case1 => simp
  | case2 text => simp
  | case3 text rest _ ih => simp [other, ih]

end Text

namespace QName

theorem text_of_unnamed {q : QName} (unnamed : q.space = "") : q.text = q.name := by
  simp [text, isUnnamed, unnamed]

theorem toList_text {q : QName} (named : q.space ≠ "") :
    q.text.toList = q.space.toList ++ ':' :: q.name.toList := by
  simp [text, isUnnamed, named]

/-- A name is read back from its text just if its local name has no colon, and no dot in the unnamed
    package. -/
theorem parse_text_iff (q : QName) :
    parse q.text = q ↔ ':' ∉ q.name.toList ∧ (q.space = "" → '.' ∉ q.name.toList) := by
  by_cases unnamed : q.space = ""
  · have itself : q = QName.unnamed q.name := by
      rw [QName.unnamed, ← unnamed]
    have text := text_of_unnamed unnamed
    have read := parse_eq_unnamed_iff q.name
    rw [← itself] at read
    rw [text, read]
    simp [unnamed]
  · rw [parse, toList_text unnamed]
    constructor
    · intro read
      refine ⟨?_, fun empty => absurd empty unnamed⟩
      split at read
      next space name found =>
        have after : String.ofList name = q.name := congrArg QName.name read
        rw [← after, String.toList_ofList]
        exact (Text.splitLast?_eq_some found).2
      next none => exact absurd (List.mem_append_right _ (.head _)) (Text.splitLast?_eq_none_iff.1 none)
    · rintro ⟨noColon, -⟩
      rw [Text.splitLast?_append noColon]
      simp

/-- Namespaces without a colon are told by the text, once it is known whether there is one. -/
theorem eq_of_text_eq {q q' : QName} (plain : ':' ∉ q.space.toList) (plain' : ':' ∉ q'.space.toList)
    (alike : q.space = "" ↔ q'.space = "") (same : q.text = q'.text) : q = q' := by
  by_cases unnamed : q.space = ""
  · have unnamed' := alike.1 unnamed
    rw [text_of_unnamed unnamed, text_of_unnamed unnamed'] at same
    cases q
    cases q'
    simp_all
  · have named' : q'.space ≠ "" := fun empty => unnamed (alike.2 empty)
    have first := Text.splitFirst?_append plain q.name.toList
    rw [← toList_text unnamed, same, toList_text named', Text.splitFirst?_append plain'] at first
    simp only [Option.some.injEq, Prod.mk.injEq, String.toList_inj] at first
    cases q
    cases q'
    simp_all

/-- A name of the unnamed package with the text of a name in another one is not read back. -/
theorem parse_text_ne {q q' : QName} (unnamed : q.space = "") (named : q'.space ≠ "")
    (same : q.text = q'.text) :
    parse q.text ≠ q := by
  intro read
  have noColon := ((parse_text_iff q).1 read).1
  rw [← text_of_unnamed unnamed, same, toList_text named] at noColon
  exact noColon (List.mem_append_right _ (.head _))

end QName

/-! ### The unnamed package -/

namespace Name

/-- The name is qualified, and in the unnamed package. -/
def Unnamed (n : Name) : Prop := ∃ name, n = .qualified (QName.unnamed name)

/-- A colon in the text of a name is in its local name, or the name is not just a local one. -/
theorem colon_mem_text_iff (n : Name) : ':' ∈ n.text.toList ↔ ¬n.Unnamed ∨ ':' ∈ n.localName.toList := by
  cases n with
  | multi m =>
    have several : ¬(Name.multi m).Unnamed := by
      intro ⟨name, same⟩
      cases same
    simp [Name.text, MultiName.text, several]
  | qualified q =>
    have unnamed_iff : (Name.qualified q).Unnamed ↔ q.space = "" := by
      constructor
      · intro ⟨name, same⟩
        cases same
        rfl
      · intro unnamed
        exact ⟨q.name, by rw [QName.unnamed, ← unnamed]⟩
    rw [unnamed_iff, Name.text, Name.localName]
    by_cases unnamed : q.space = ""
    · simp [QName.text_of_unnamed unnamed, unnamed]
    · simp [QName.toList_text unnamed, unnamed]

theorem name_first (n : Name) : n.first.name = n.localName := by
  cases n <;> rfl

end Name

/-! ### Names of a pool -/

namespace Abc

/-- The index of the local name that is told before run time. -/
def MultinameInfo.localIndex? : MultinameInfo → Option Nat
  | .qname _ _ name => some name
  | .multiname _ name _ => some name
  | _ => none

namespace ConstantPool

/-- Neither namespaces nor local names have a colon, and local names have no dot. -/
structure Tidy (pool : ConstantPool) : Prop where
  spaces : ∀ info ∈ pool.spaces, ∀ uri ∈ (pool.string info.name).toOption, ':' ∉ uri.toList
  names : ∀ info ∈ pool.multinames, ∀ index ∈ info.localIndex?, ∀ text ∈ (pool.string index).toOption,
    ':' ∉ text.toList ∧ '.' ∉ text.toList

/-- The name is that of a parametrised type. -/
def Parametrised (pool : ConstantPool) (index : Nat) : Prop :=
  ∃ base parameters, pool.multiname index = .ok (.typeName base parameters)

/-- The arguments of a parametrised type that stand in its local name: its own, those of its base, and those
    of an argument that can be told. -/
inductive Argument (pool : ConstantPool) : Nat → Nat → Prop
  | own {index base parameters argument} (here : pool.multiname index = .ok (.typeName base parameters))
      (listed : argument ∈ parameters) : Argument pool index argument
  | base {index base parameters argument} (here : pool.multiname index = .ok (.typeName base parameters))
      (inner : Argument pool base argument) : Argument pool index argument
  | nested {index base parameters parameter argument}
      (here : pool.multiname index = .ok (.typeName base parameters)) (listed : parameter ∈ parameters)
      (named : Named pool parameter) (inner : Argument pool parameter argument) : Argument pool
        index argument

theorem Argument.parametrised {pool : ConstantPool} {index argument : Nat}
    (h : pool.Argument index argument) :
    pool.Parametrised index := by
  cases h with
  | own here | base here | nested here => exact ⟨_, _, here⟩

variable {pool : ConstantPool}

theorem Tidy.name (tidy : pool.Tidy) {index place : Nat} {info : MultinameInfo} {text : String}
    (here : pool.multiname index = .ok info) (held : info.localIndex? = some place)
    (read : pool.string place = .ok text) : ':' ∉ text.toList ∧ '.' ∉ text.toList :=
  tidy.names info (List.mem_of_getElem? (entry_eq_ok_iff.1 here).2) place held text (toOption_eq_some.2 read)

theorem Tidy.space (tidy : pool.Tidy) {index : Nat} {uri : String}
    (read : Resolve.spaceUri pool index = .ok uri) :
    ':' ∉ uri.toList := by
  obtain ⟨info, here, read⟩ := bind_eq_ok.1 read
  exact tidy.spaces info (List.mem_of_getElem? (entry_eq_ok_iff.1 here).2) uri (toOption_eq_some.2 read)

end ConstantPool

end Abc

namespace Resolve

open Abc Abc.ConstantPool

variable {pool : ConstantPool}

theorem mapM_congr {α β ε : Type} {f g : α → Except ε β} {items : List α}
    (same : ∀ item ∈ items, f item = g item) :
    items.mapM f = items.mapM g := by
  induction items with
  | nil => rfl
  | cons item rest ih =>
    rw [List.mapM_cons, List.mapM_cons, same item (.head _), ih fun other member =>
      same other (.tail _ member)]

variable {depth index : Nat} {n : Name}

/-- Depth does not matter, as long as it suffices. -/
theorem nameWithin_eq {depth' : Nat} (within : pool.Within depth index)
    (within' : pool.Within depth' index) :
    nameWithin pool depth index = nameWithin pool depth' index := by
  induction depth generalizing depth' index with
  | zero => exact within.elim
  | succ depth ih =>
    cases depth' with
    | zero => exact within'.elim
    | succ depth' =>
      by_cases typed : pool.Parametrised index
      · obtain ⟨base, parameters, here⟩ := typed
        have inner (mentioned : Nat) (h : mentioned = base ∨ mentioned ∈ parameters) :
            nameWithin pool depth mentioned = nameWithin pool depth' mentioned :=
          ih (within _ ⟨base, parameters, here, h⟩) (within' _ ⟨base, parameters, here, h⟩)
        rw [nameWithin_typeName here, nameWithin_typeName here, inner base (Or.inl rfl),
          mapM_congr fun parameter listed => inner parameter (Or.inr listed)]
      · rw [nameWithin, nameWithin]
        cases here : pool.multiname index with
        | error e => rfl
        | ok info =>
          cases info with
          | typeName base parameters => exact absurd ⟨base, parameters, here⟩ typed
          | qname | multiname | runtimeSpace | runtimeBoth | runtimeName => rfl

theorem name_eq (acyclic : pool.Acyclic) (within : pool.Within depth index) :
    name pool index = nameWithin pool depth index :=
  nameWithin_eq (acyclic.within index) within

/-- Where a name comes from: its local name is in the pool, or it is made of a base and its arguments. -/
inductive Told (pool : ConstantPool) (depth index : Nat) : Name → Prop
  | plain {info place n} (here : pool.multiname index = .ok info) (held : info.localIndex? = some place)
      (read : pool.string place = .ok n.localName)
      (space : n.first.space = "" ∨ ∃ space, spaceUri pool space = .ok n.first.space) : Told
        pool depth index n
  | parametrised {base parameters n arguments}
      (here : pool.multiname index = .ok (.typeName base parameters))
        (inner : nameWithin pool depth base = .ok (some n))
      (all : parameters.mapM (nameWithin pool depth) = .ok arguments) :
      Told pool depth index (parametrised n.first (arguments.map argumentText))

theorem told_ofSpaces {set : List Nat} {spaces : List String} (read : set.mapM (spaceUri pool) = .ok spaces)
    (text : String) :
    (ofSpaces spaces text).localName = text ∧ ((ofSpaces spaces text).first.space = "" ∨
      ∃ space, spaceUri pool space = .ok (ofSpaces spaces text).first.space) := by
  have first : (ofSpaces spaces text).first = ⟨spaces.head?.getD "", text⟩ := by
    rcases spaces with _ | ⟨space, _ | ⟨_, _⟩⟩ <;> rfl
  rw [← Name.name_first, first]
  refine ⟨rfl, ?_⟩
  cases mapM_ok read with
  | nil => exact Or.inl rfl
  | @cons space uri _ _ found _ => exact Or.inr ⟨space, found⟩

theorem told_of_nameWithin (read : nameWithin pool (depth + 1) index = .ok (some n)) :
    Told pool depth index n := by
  have whole := read
  rw [nameWithin] at read
  split at read
  next => cases read
  next =>
    obtain ⟨info, here, read⟩ := bind_eq_ok.1 read
    cases info with
    | qname attr space name =>
      obtain ⟨uri, found, read⟩ := bind_eq_ok.1 read
      obtain ⟨text, held, read⟩ := bind_eq_ok.1 read
      cases read
      exact .plain here rfl held (Or.inr ⟨space, found⟩)
    | multiname attr name spaceSet =>
      obtain ⟨set, -, read⟩ := bind_eq_ok.1 read
      obtain ⟨spaces, found, read⟩ := bind_eq_ok.1 read
      obtain ⟨text, held, read⟩ := bind_eq_ok.1 read
      cases read
      have told := told_ofSpaces found text
      exact .plain here rfl (told.1.symm ▸ held) told.2
    | typeName base parameters =>
      rw [nameWithin_typeName here] at whole
      obtain ⟨found, inner, whole⟩ := bind_eq_ok.1 whole
      cases found with
      | none => cases whole
      | some b =>
        obtain ⟨arguments, all, whole⟩ := bind_eq_ok.1 whole
        cases whole
        exact .parametrised here inner all
    | runtimeSpace | runtimeBoth | runtimeName => cases read

theorem not_parametrised {place : Nat} {info : MultinameInfo} (here : pool.multiname index = .ok info)
    (held : info.localIndex? = some place) : ¬pool.Parametrised index := by
  intro ⟨base, parameters, there⟩
  rw [here] at there
  cases there
  cases held

/-- No namespace of a name has a colon. -/
theorem colon_not_mem_space (tidy : pool.Tidy) (read : nameWithin pool depth index = .ok (some n)) :
    ':' ∉ n.first.space.toList := by
  induction depth generalizing index n with
  | zero => cases read
  | succ depth ih =>
    cases told_of_nameWithin read with
    | plain here held text space =>
      rcases space with none | ⟨space, found⟩
      · simp [none]
      · exact tidy.space found
    | parametrised here inner all =>
      have same := ih inner
      exact same

theorem colon_mem_parametrised (base : QName) (arguments : List (Option Name)) :
    ':' ∈ (parametrised base (arguments.map argumentText)).localName.toList ↔
      ':' ∈ base.name.toList ∨ ∃ argument ∈ arguments, ':' ∈ (argumentText argument).toList := by
  have comma : ':' ∉ ",".toList := by decide
  simp [parametrised, Name.localName, Text.mem_joinWith comma]

/-- The local name of a parametrised type has a dot, and no other has. -/
theorem dot_mem_localName (tidy : pool.Tidy) (read : nameWithin pool (depth + 1) index = .ok (some n)) :
    '.' ∈ n.localName.toList ↔ pool.Parametrised index := by
  cases told_of_nameWithin read with
  | plain here held text space =>
    exact iff_of_false (tidy.name here held text).2 (not_parametrised here held)
  | parametrised here inner all =>
    refine iff_of_true ?_ ⟨_, _, here⟩
    simp [parametrised, Name.localName]

/-- Some argument in the local name is not in the unnamed package. -/
def Strays (pool : ConstantPool) (index : Nat) : Prop :=
  ∃ argument n, pool.Argument index argument ∧ name pool argument = .ok (some n) ∧ ¬n.Unnamed

/-- Such an argument is one of the base, one of the parameters, or one of theirs. -/
theorem strays_iff {base : Nat} {parameters : List Nat}
    (here : pool.multiname index = .ok (.typeName base parameters)) :
    Strays pool index ↔ Strays pool base ∨ ∃ parameter ∈ parameters,
      (∃ n, name pool parameter = .ok (some n) ∧ ¬n.Unnamed) ∨
        (Named pool parameter ∧ Strays pool parameter) := by
  constructor
  · intro ⟨argument, n, stands, found⟩
    cases stands with
    | own here' listed =>
      rw [here] at here'
      cases here'
      exact Or.inr ⟨argument, listed, Or.inl ⟨n, found⟩⟩
    | base here' stands =>
      rw [here] at here'
      cases here'
      exact Or.inl ⟨argument, n, stands, found⟩
    | nested here' listed named stands =>
      rw [here] at here'
      cases here'
      exact Or.inr ⟨_, listed, Or.inr ⟨named, argument, n, stands, found⟩⟩
  · rintro (⟨argument, n, stands, found⟩ | ⟨parameter, listed,
      ⟨n, found⟩ | ⟨named, argument, n, stands, found⟩⟩)
    · exact ⟨argument, n, .base here stands, found⟩
    · exact ⟨parameter, n, .own here listed, found⟩
    · exact ⟨argument, n, .nested here listed named stands, found⟩

/-- A written argument has a colon if it is not in the unnamed package, or if one of its own arguments is
    not. -/
theorem colon_mem_argumentText {parameter : Nat} {written : Option Name}
    (read : name pool parameter = .ok written) (acyclic : pool.Acyclic)
    (inner : ∀ n, written = some n → (':' ∈ n.localName.toList ↔ Strays pool parameter)) :
    ':' ∈ (argumentText written).toList ↔
      (∃ n, name pool parameter = .ok (some n) ∧ ¬n.Unnamed) ∨
        (Named pool parameter ∧ Strays pool parameter) := by
  rw [read]
  cases written with
  | none =>
    have unnamed : ¬Named pool parameter := by
      intro named
      cases isSome_of_named named (acyclic.within parameter) read
    simp [argumentText, unnamed]
  | some n =>
    have named : Named pool parameter := named_of_nameWithin read
    simp [argumentText, Name.colon_mem_text_iff, inner n rfl, named]

/-- A colon in the local name of a type comes from an argument that is not in the unnamed package. -/
theorem colon_mem_localName (acyclic : pool.Acyclic) (tidy : pool.Tidy) (within : pool.Within depth index)
    (read : nameWithin pool depth index = .ok (some n)) : ':' ∈ n.localName.toList ↔ Strays pool index := by
  induction depth generalizing index n with
  | zero => exact within.elim
  | succ depth ih =>
    cases told_of_nameWithin read with
    | plain here held text space =>
      refine iff_of_false (tidy.name here held text).1 ?_
      intro ⟨argument, m, stands, _⟩
      exact not_parametrised here held stands.parametrised
    | @parametrised base parameters b arguments here inner all =>
      have base' := ih (within _ ⟨base, parameters, here, Or.inl rfl⟩) inner
      have each {parameter : Nat} {written : Option Name} (listed : parameter ∈ parameters)
          (readHere : nameWithin pool depth parameter = .ok written) :
          ':' ∈ (argumentText written).toList ↔ (∃ n, name pool parameter = .ok (some n) ∧ ¬n.Unnamed) ∨
            (Named pool parameter ∧ Strays pool parameter) := by
        have deep := within _ ⟨base, parameters, here, Or.inr listed⟩
        refine colon_mem_argumentText ((name_eq acyclic deep).trans readHere) acyclic ?_
        rintro n rfl
        exact ih deep readHere
      rw [colon_mem_parametrised, Name.name_first, base', strays_iff here]
      refine or_congr_right ⟨?_, ?_⟩
      · intro ⟨written, member, colon⟩
        obtain ⟨parameter, listed, readHere⟩ := exists_of_forall₂ (mapM_ok all) member
        exact ⟨parameter, listed, (each listed readHere).1 colon⟩
      · intro ⟨parameter, listed, stray⟩
        obtain ⟨written, member, readHere⟩ := exists_of_forall₂ (mapM_ok all).flip listed
        exact ⟨written, member, (each listed readHere).2 stray⟩

/-- A name that the pool tells is read back from its text just if it is not parametrised, or has a namespace
    and no argument outside the unnamed package.  Two names have one text only if one of them is in the
    unnamed package, where it is not read back, and the other one is not. -/
theorem names_parse_back (acyclic : pool.Acyclic) (tidy : pool.Tidy) {index : Nat} {q : QName}
    (found : name pool index = .ok (some (.qualified q))) :
    (QName.parse q.text = q ↔ ¬pool.Parametrised index ∨ q.space ≠ "" ∧
      ∀ argument n, pool.Argument index argument → name pool argument = .ok (some n) → n.Unnamed) ∧
      ∀ index' q', name pool index' = .ok (some (.qualified q')) → q.text = q'.text → q ≠ q' →
        (q.space = "" ∧ q'.space ≠ "" ∧ QName.parse q.text ≠ q) ∨
          (q.space ≠ "" ∧ q'.space = "" ∧ QName.parse q'.text ≠ q') := by
  constructor
  · have colon : ':' ∈ q.name.toList ↔ Strays pool index :=
      colon_mem_localName acyclic tidy (acyclic.within index) found
    have dot : '.' ∈ q.name.toList ↔ pool.Parametrised index := dot_mem_localName tidy found
    rw [QName.parse_text_iff, colon, dot]
    constructor
    · intro ⟨stays, plain⟩
      by_cases typed : pool.Parametrised index
      · refine Or.inr ⟨fun unnamed => plain unnamed typed, fun argument n stands told => ?_⟩
        by_contra outside
        exact stays ⟨argument, n, stands, told, outside⟩
      · exact Or.inl typed
    · rintro (plain | ⟨named, inside⟩)
      · exact ⟨fun ⟨argument, n, stands, _⟩ => plain stands.parametrised, fun _ => plain⟩
      · exact ⟨fun ⟨argument, n, stands, told, outside⟩ => outside (inside argument n stands told),
          fun unnamed => absurd unnamed named⟩
  · intro index' q' found' same differ
    have noColon := colon_not_mem_space tidy found
    have noColon' := colon_not_mem_space tidy found'
    by_cases unnamed : q.space = ""
    · have named' : q'.space ≠ "" := fun unnamed' =>
        differ (QName.eq_of_text_eq noColon noColon' (iff_of_true unnamed unnamed') same)
      exact Or.inl ⟨unnamed, named', QName.parse_text_ne unnamed named' same⟩
    · have unnamed' : q'.space = "" := by
        by_contra named'
        exact differ (QName.eq_of_text_eq noColon noColon' (iff_of_false unnamed named') same)
      exact Or.inr ⟨unnamed, unnamed', QName.parse_text_ne unnamed' unnamed same.symm⟩

/-- The names `__AS3__.vec:Vector`, `Vector`, `int` and `pkg:A`; both vectors of `int` and of `pkg:A`; the
    first vector of one of these; and a name whose namespace is `Vector.<pkg`. -/
def vectors : ConstantPool where
  strings := ["__AS3__.vec", "Vector", "int", "pkg", "A", "Vector.<pkg", "A>"]
  spaces := [⟨.packageSpace, 0⟩, ⟨.packageSpace, 1⟩, ⟨.packageSpace, 4⟩, ⟨.packageSpace, 6⟩]
  multinames := [.qname false 2 2, .qname false 1 2, .qname false 1 3, .qname false 3 5, .typeName 1 [3],
    .typeName 2 [3], .typeName 1 [4], .typeName 2 [4], .typeName 1 [5], .qname false 4 7]

theorem tidy_vectors : vectors.Tidy where
  spaces := by decide
  names := by decide

theorem acyclic_vectors : vectors.Acyclic := acyclic_of_earlier (by decide)

/-- A vector of `int` is read back, for its argument is in the unnamed package. -/
theorem names_parse_back_vectors :
    vectors.Acyclic ∧ vectors.Tidy ∧
      name vectors 5 = .ok (some (.qualified ⟨"__AS3__.vec", "Vector.<int>"⟩)) ∧
      QName.parse (QName.text ⟨"__AS3__.vec", "Vector.<int>"⟩) = ⟨"__AS3__.vec", "Vector.<int>"⟩ ∧
      (¬vectors.Parametrised 5 ∨ "__AS3__.vec" ≠ "" ∧
        ∀ argument n, vectors.Argument 5 argument → name vectors argument = .ok (some n) → n.Unnamed) := by
  have found : name vectors 5 = .ok (some (.qualified ⟨"__AS3__.vec", "Vector.<int>"⟩)) := rfl
  have read : QName.parse (QName.text ⟨"__AS3__.vec", "Vector.<int>"⟩)
    = ⟨"__AS3__.vec", "Vector.<int>"⟩ := by decide
  exact ⟨acyclic_vectors, tidy_vectors, found, read,
    (names_parse_back acyclic_vectors tidy_vectors found).1.1 read⟩

/-- A vector of `pkg:A` is not read back, and neither is a vector of `int` in the unnamed package.  A vector
    of `pkg:A` there has the text of another name. -/
theorem nested_name_misread :
    vectors.Acyclic ∧ vectors.Tidy ∧
      name vectors 7 = .ok (some (.qualified ⟨"__AS3__.vec", "Vector.<pkg:A>"⟩)) ∧
      QName.parse (QName.text ⟨"__AS3__.vec", "Vector.<pkg:A>"⟩) = ⟨"__AS3__.vec:Vector.<pkg", "A>"⟩ ∧
      name vectors 6 = .ok (some (.qualified ⟨"", "Vector.<int>"⟩)) ∧
      QName.parse (QName.text ⟨"", "Vector.<int>"⟩) = ⟨"Vector", "<int>"⟩ ∧
      name vectors 8 = .ok (some (.qualified ⟨"", "Vector.<pkg:A>"⟩)) ∧
      name vectors 10 = .ok (some (.qualified ⟨"Vector.<pkg", "A>"⟩)) ∧
      QName.text ⟨"", "Vector.<pkg:A>"⟩ = QName.text ⟨"Vector.<pkg", "A>"⟩ :=
  ⟨acyclic_vectors, tidy_vectors, rfl, by decide, rfl, by decide, rfl, rfl, by decide⟩

end Resolve

end AbcBuild
