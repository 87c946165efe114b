/-
Module: AbcBuild.Proofs.Readings
Purpose: Which indices the readings of names, members, tags, methods and traits need.  A reading that fails
  names an index that has to be followed and is out of range, and one that succeeds has found all those in
  range.
Main exports: Consults, Resolve.consults_name, Resolve.consults_signature, Resolve.consults_traitDef
-/
import AbcBuild.Program.Resolve
import AbcBuild.Proofs.Following
import Mathlib.Data.List.Forall2

namespace AbcBuild

open Abc

theorem Resolve.entry_eq_ok_iff {α : Type} {table : TableKind} {items : List α} {index : Nat} {a : α} :
    entry table items index = .ok a ↔ items[index]? = some a := by
  rw [entry]
  cases items[index]? <;> simp

/-! ### What a reading needs -/

variable {α β : Type} {file : File} {W : TableKind → Nat → Prop} {table : TableKind} {index : Nat}

/-- The reading fails only at an index from `W` that is out of range, and it succeeds only if all are in
    range. -/
structure Consults (file : File) (W : TableKind → Nat → Prop) (run : Except DecodeError α) : Prop where
  blames : ∀ e, run = .error e → ∃ table index, W table index ∧ ¬file.Has table index ∧
    e = .indexOutOfRange table index (file.size table)
  has : ∀ a, run = .ok a → ∀ {table index}, W table index → file.Has table index

/-- One index. -/
def Only (table : TableKind) (index : Nat) : TableKind → Nat → Prop :=
  fun table' index' => table' = table ∧ index' = index

namespace Consults

theorem ok {a : α} (all : ∀ {table index}, W table index → file.Has table index) :
    Consults file W (.ok a) where
  blames := fun e failed => by cases failed
  has := fun _ _ => all

/-- Once the first reading has succeeded, what it needs is known to be in range. -/
theorem bind {W' : TableKind → Nat → Prop} {first : Except DecodeError α} {next : α → Except DecodeError β}
    (h : Consults file W' first) (more : ∀ {table index}, W' table index → W table index)
    (rest : ∀ a, first = .ok a → (∀ {table index}, W' table index → file.Has table index) →
      Consults file W (next a)) :
    Consults file W (first >>= next) := by
  cases read : first with
  | error e =>
    refine ⟨fun e' failed => ?_, fun a done => by cases done⟩
    cases failed
    obtain ⟨table, index, needed, missing, same⟩ := h.blames e read
    exact ⟨table, index, more needed, missing, same⟩
  | ok a => exact rest a read (h.has a read)

/-- The first reading needs one index. -/
theorem one {first : Except DecodeError α} {next : α → Except DecodeError β}
    (h : Consults file (Only table index) first) (needed : W table index)
    (rest : ∀ a, first = .ok a → file.Has table index → Consults file W (next a)) :
    Consults file W (first >>= next) :=
  h.bind (fun only => by obtain ⟨rfl, rfl⟩ := only; exact needed) fun a read has =>
    rest a read (has ⟨rfl, rfl⟩)

theorem map {run : Except DecodeError α} {make : α → β} (h : Consults file W run) :
    Consults file W (make <$> run) := by
  cases run with
  | ok a => exact .ok (h.has a rfl)
  | error e =>
    refine ⟨fun e' failed => ?_, fun a done => by cases done⟩
    cases failed
    exact h.blames e rfl

/-- A list of readings consults what any of them does. -/
theorem mapM {W : β → TableKind → Nat → Prop} {read : β → Except DecodeError α} {items : List β}
    (h : ∀ item ∈ items, Consults file (W item) (read item)) :
    Consults file (fun table index => ∃ item ∈ items, W item table index) (items.mapM read) := by
  induction items with
  | nil => exact .ok fun ⟨_, member, _⟩ => (List.not_mem_nil member).elim
  | cons item rest ih =>
    rw [List.mapM_cons]
    refine .bind (h item (.head _)) (fun needed => ⟨item, (.head _), needed⟩) fun a _ first => ?_
    refine .bind (ih fun other member => h other (.tail _ member))
      (fun ⟨other, member, needed⟩ => ⟨other, .tail _ member, needed⟩) fun _ _ later => .ok ?_
    rintro table index ⟨other, member, needed⟩
    rcases List.mem_cons.1 member with rfl | member
    · exact first needed
    · exact later ⟨other, member, needed⟩

/-- Items are read one after the other, each with its place. -/
theorem along {W : Nat → β → TableKind → Nat → Prop} {read : Nat → β → Except DecodeError α}
    (run : Nat → List β → Except DecodeError (List α)) (nil : ∀ place, run place [] = .ok [])
    (cons : ∀ place item rest, run place (item :: rest) = do
      let first ← read place item
      let more ← run (place + 1) rest
      return first :: more)
    {items : List β} {place : Nat}
    (h : ∀ n item, items[n]? = some item → Consults file (W (place + n) item) (read (place + n) item)) :
    Consults file (fun table index => ∃ n item, items[n]? = some item ∧ W (place + n) item table index)
      (run place items) := by
  induction items generalizing place with
  | nil => exact nil place ▸ .ok fun ⟨_, _, there, _⟩ => by cases there
  | cons item rest ih =>
    have shift (n : Nat) : place + 1 + n = place + (n + 1) := by omega
    rw [cons]
    refine .bind (h 0 item rfl) (fun needed => ⟨0, item, rfl, needed⟩) fun _ _ first => ?_
    refine .bind (ih fun n other there => shift n ▸ h (n + 1) other there)
      (fun ⟨n, other, there, needed⟩ => ⟨n + 1, other, there, shift n ▸ needed⟩) fun _ _ later => .ok ?_
    rintro table index ⟨n, other, there, needed⟩
    cases n with
    | zero =>
      cases there
      exact first needed
    | succ n => exact later ⟨n, other, there, (shift n).symm ▸ needed⟩

/-- An entry of a constant table. -/
theorem constant {items : List α} (size : file.size table = items.length + 1) (first : table.first = 1) :
    Consults file (Only table index) (ConstantPool.entry table items index) where
  blames := by
    intro e failed
    obtain ⟨outside, rfl⟩ := ConstantPool.entry_eq_error_iff.1 failed
    refine ⟨table, index, ⟨rfl, rfl⟩, ?_, by rw [size]⟩
    rintro ⟨least, within⟩
    omega
  has := by
    rintro a read _ _ ⟨rfl, rfl⟩
    obtain ⟨some, held⟩ := ConstantPool.entry_eq_ok_iff.1 read
    have inside := (List.getElem?_eq_some_iff.1 held).1
    exact ⟨by omega, by omega⟩

theorem string : Consults file (Only .string index) (file.pool.string index) where
  blames := by
    intro e failed
    rw [ConstantPool.string] at failed
    split at failed
    next => cases failed
    next some =>
      obtain ⟨outside, rfl⟩ := ConstantPool.entry_eq_error_iff.1 failed
      refine ⟨.string, index, ⟨rfl, rfl⟩, ?_, rfl⟩
      rintro ⟨-, within⟩
      exact absurd (Nat.lt_succ_iff.1 within) (Nat.not_le.2 (outside.resolve_left some))
  has := by
    rintro text read _ _ ⟨rfl, rfl⟩
    exact ⟨Nat.zero_le _, Nat.lt_succ_iff.2 (ConstantPool.exists_string_iff.1 ⟨text, read⟩)⟩

/-- A string that may be missing; index 0 means none. -/
theorem optional : Consults file (Only .string index)
    (if index = 0 then pure none else some <$> file.pool.string index) := by
  split
  next none =>
    refine .ok ?_
    rintro _ _ ⟨rfl, rfl⟩
    exact ⟨Nat.zero_le _, none ▸ Nat.succ_pos _⟩
  next => exact .map .string

/-- An entry of a table that counts from 0. -/
theorem item {items : List α} (size : file.size table = items.length) (first : table.first = 0) :
    Consults file (Only table index) (Resolve.entry table items index) where
  blames := by
    intro e failed
    rw [Resolve.entry] at failed
    split at failed
    next => cases failed
    next missing =>
      cases failed
      refine ⟨table, index, ⟨rfl, rfl⟩, ?_, by rw [size]⟩
      rintro ⟨-, within⟩
      exact absurd (size ▸ within) (Nat.not_lt.2 (List.getElem?_eq_none_iff.1 missing))
  has := by
    rintro a read _ _ ⟨rfl, rfl⟩
    exact ⟨by omega, size ▸ (List.getElem?_eq_some_iff.1 (Resolve.entry_eq_ok_iff.1 read)).1⟩

end Consults

/-! ### Names -/

namespace Resolve

open Abc.ConstantPool

/-- A name that is found can be told. -/
theorem named_of_nameWithin {pool : ConstantPool} {depth : Nat} {n : Name}
    (read : nameWithin pool depth index = .ok (some n)) : Named pool index := by
  induction depth generalizing index n with
  | zero => cases read
  | succ depth ih =>
    rw [nameWithin] at read
    split at read
    next => cases read
    next =>
      obtain ⟨info, here, read⟩ := bind_eq_ok.1 read
      cases info with
      | qname attr space name => exact .qname here
      | multiname attr name spaceSet => exact .multiname here
      | typeName base parameters =>
        obtain ⟨found, inner, read⟩ := bind_eq_ok.1 read
        cases found with
        | none => cases read
        | some n => exact .typeName here (ih inner)
      | runtimeSpace | runtimeBoth | runtimeName => cases read

section Equations

variable {pool : ConstantPool} {depth : Nat}

theorem nameWithin_qname {attr : Bool} {space name : Nat}
    (here : pool.multiname index = .ok (.qname attr space name)) :
    nameWithin pool (depth + 1) index = do
      let uri ← spaceUri pool space
      let name ← pool.string name
      return some (.qualified ⟨uri, name⟩) := by
  rw [nameWithin, if_neg (ConstantPool.entry_eq_ok_iff.1 here).1, here]
  rfl

theorem nameWithin_multiname {attr : Bool} {name spaceSet : Nat}
    (here : pool.multiname index = .ok (.multiname attr name spaceSet)) :
    nameWithin pool (depth + 1) index = do
      let set ← pool.spaceSet spaceSet
      let spaces ← set.mapM (spaceUri pool)
      let name ← pool.string name
      return some (ofSpaces spaces name) := by
  rw [nameWithin, if_neg (ConstantPool.entry_eq_ok_iff.1 here).1, here]
  rfl

theorem nameWithin_typeName {base : Nat} {parameters : List Nat}
    (here : pool.multiname index = .ok (.typeName base parameters)) :
    nameWithin pool (depth + 1) index =
      nameWithin pool depth base >>= fun found => found.elim (pure none) fun base => do
        let arguments ← parameters.mapM (nameWithin pool depth)
        return some (parametrised base.first (arguments.map argumentText)) := by
  rw [nameWithin, if_neg (ConstantPool.entry_eq_ok_iff.1 here).1, here]
  refine congrArg (nameWithin pool depth base >>= ·) (funext fun found => ?_)
  cases found <;> rfl

end Equations

/-- A name that can be told is found, if it is not too deep. -/
theorem isSome_of_named {pool : ConstantPool} {depth : Nat} {result : Option Name} (named : Named pool index)
    (within : pool.Within depth index) (read : nameWithin pool depth index = .ok result) :
    result.isSome = true := by
  induction named generalizing depth result with
  | qname here =>
    obtain ⟨depth, rfl⟩ := within.exists_succ
    rw [nameWithin_qname here] at read
    obtain ⟨uri, -, read⟩ := bind_eq_ok.1 read
    obtain ⟨text, -, read⟩ := bind_eq_ok.1 read
    cases read
    rfl
  | multiname here =>
    obtain ⟨depth, rfl⟩ := within.exists_succ
    rw [nameWithin_multiname here] at read
    obtain ⟨spaces, -, read⟩ := bind_eq_ok.1 read
    obtain ⟨uris, -, read⟩ := bind_eq_ok.1 read
    obtain ⟨text, -, read⟩ := bind_eq_ok.1 read
    cases read
    rfl
  | typeName here named ih =>
    obtain ⟨depth, rfl⟩ := within.exists_succ
    rw [nameWithin_typeName here] at read
    obtain ⟨found, inner, read⟩ := bind_eq_ok.1 read
    obtain ⟨base, rfl⟩ := Option.isSome_iff_exists.1 (ih (within _ ⟨_, _, here, .inl rfl⟩) inner)
    obtain ⟨arguments, -, read⟩ := bind_eq_ok.1 read
    cases read
    rfl

theorem has_of_space {space : Nat} {info : NamespaceInfo} (found : file.pool.space space = .ok info)
    (self : file.Has .space space) (uri : file.Has .string info.name)
    (follows : SpaceFollows file.pool space table index) : file.Has table index := by
  cases follows with
  | self => exact self
  | uri found' =>
    cases found.symm.trans found'
    exact uri

/-- To read a namespace consults its entry and the text of its name. -/
theorem consults_spaceUri (space : Nat) :
    Consults file (SpaceFollows file.pool space) (spaceUri file.pool space) := by
  refine .one (.constant rfl rfl) .self fun info found self => ?_
  rw [← bind_pure (file.pool.string info.name)]
  exact .one .string (.uri found) fun _ _ uri => .ok (has_of_space found self uri)

/-- Besides itself, a parametrised type leads to what its base leads to, and to what its parameters do if the
    base can be told. -/
theorem has_of_typeName {name base : Nat} {parameters : List Nat}
    (here : file.pool.multiname name = .ok (.typeName base parameters)) (self : file.Has .multiname name)
    (above : ∀ {table index}, NameFollows file.pool base table index → file.Has table index)
    (all : Named file.pool base → ∀ {table index},
      (∃ parameter ∈ parameters, NameFollows file.pool parameter table index) → file.Has table index)
    (follows : NameFollows file.pool name table index) : file.Has table index := by
  cases follows with
  | self => exact self
  | base here' inner =>
    cases here.symm.trans here'
    exact above inner
  | parameter here' named listed inner =>
    cases here.symm.trans here'
    exact all named ⟨_, listed, inner⟩
  | _ => cases here.symm.trans ‹file.pool.multiname name = _›

/-- A reference by name, if it is not too deep. -/
theorem consults_nameWithin {depth index : Nat} (within : file.pool.Within depth index) :
    Consults file (NameFollows file.pool index) (nameWithin file.pool depth index) := by
  induction depth generalizing index with
  | zero => exact within.elim
  | succ depth ih =>
    rw [nameWithin]
    split
    next none => exact .ok fun follows => absurd none follows.ne_zero
    next some =>
      refine .one (.constant rfl rfl) (.self some) fun info here self => ?_
      cases info with
      | qname attr space name =>
        refine .bind (consults_spaceUri space) (.space here) fun _ _ qualified => ?_
        refine .one .string (.name here) fun _ _ named => .ok fun follows => ?_
        cases follows with
        | self => exact self
        | space here' inner =>
          cases here.symm.trans here'
          exact qualified inner
        | name here' =>
          cases here.symm.trans here'
          exact named
        | _ => cases here.symm.trans ‹file.pool.multiname index = _›
      | multiname attr name spaceSet =>
        refine .one (.constant rfl rfl) (.spaceSet here) fun spaces found set => ?_
        refine .bind (.mapM fun space _ => consults_spaceUri space)
          (fun ⟨space, listed, inner⟩ => .member here found listed inner) fun _ _ members => ?_
        refine .one .string (.openName here) fun _ _ named => .ok fun follows => ?_
        cases follows with
        | self => exact self
        | spaceSet here' =>
          cases here.symm.trans here'
          exact set
        | member here' found' listed inner =>
          cases here.symm.trans here'
          cases found.symm.trans found'
          exact members ⟨_, listed, inner⟩
        | openName here' =>
          cases here.symm.trans here'
          exact named
        | _ => cases here.symm.trans ‹file.pool.multiname index = _›
      | typeName base parameters =>
        have below := within base ⟨_, _, here, .inl rfl⟩
        refine .bind (ih below) (.base here) fun found inner above => ?_
        cases found with
        | none =>
          exact .ok (has_of_typeName here self above fun named => by cases isSome_of_named named below inner)
        | some n =>
          refine .bind (.mapM fun parameter listed => ih (within parameter ⟨_, _, here, .inr listed⟩))
            (fun ⟨parameter, listed, inner'⟩ => .parameter here (named_of_nameWithin inner) listed inner')
            fun _ _ all => .ok (has_of_typeName here self above fun _ => all)
      | _ =>
        refine .ok fun follows => ?_
        cases follows with
        | self => exact self
        | _ => cases here.symm.trans ‹file.pool.multiname index = _›

theorem consults_name (acyclic : file.pool.Acyclic) (index : Nat) :
    Consults file (NameFollows file.pool index) (name file.pool index) :=
      consults_nameWithin (acyclic.within index)

theorem consults_definitionName (acyclic : file.pool.Acyclic) (index : Nat) :
    Consults file (NameFollows file.pool index) (definitionName file.pool index) := by
  refine .bind (consults_name acyclic index) id fun found _ has => ?_
  cases found <;> exact .ok has

/-! ### Members -/

/-- To read the name of a member consults its entry, its namespace and its text. -/
theorem consults_memberName (index : Nat) :
    Consults file (MemberFollows file.pool index) (memberName file.pool index) := by
  refine .one (.constant rfl rfl) .self fun info here self => ?_
  cases info with
  | qname attr space name =>
    refine .one (.constant rfl rfl) (.space here .self) fun _ found there => ?_
    refine .one .string (.space here (.uri found)) fun _ _ uri => ?_
    refine .one .string (.name here) fun _ _ named => .ok fun follows => ?_
    cases follows with
    | self => exact self
    | space here' inner =>
      cases here.symm.trans here'
      exact has_of_space found there uri inner
    | name here' =>
      cases here.symm.trans here'
      exact named
    | _ => cases here.symm.trans ‹file.pool.multiname index = _›
  | multiname attr name spaceSet =>
    refine .one (.constant rfl rfl) (.spaceSet here) fun spaces found set => ?_
    -- the string comes last, whether there is a namespace or not
    have rest {α : Type} (make : String → α) (first : ∀ space, spaces.head? = some space →
        ∀ {table target}, SpaceFollows file.pool space table target → file.Has table target) :
        Consults file (MemberFollows file.pool index) (do return make (← file.pool.string name)) := by
      refine .one .string (.openName here) fun _ _ named => .ok fun follows => ?_
      cases follows with
      | self => exact self
      | spaceSet here' =>
        cases here.symm.trans here'
        exact set
      | member here' found' head inner =>
        cases here.symm.trans here'
        cases found.symm.trans found'
        exact first _ head inner
      | openName here' =>
        cases here.symm.trans here'
        exact named
      | _ => cases here.symm.trans ‹file.pool.multiname index = _›
    dsimp only
    split
    next space head =>
      refine .one (.constant rfl rfl) (.member here found head .self) fun _ read there => ?_
      refine .one .string (.member here found head (.uri read)) fun _ _ uri => rest _ fun other head' => ?_
      cases head.symm.trans head'
      exact has_of_space read there uri
    next absent => exact rest _ fun space head => by cases absent.symm.trans head
  | _ =>
    refine .ok fun follows => ?_
    cases follows with
    | self => exact self
    | _ => cases here.symm.trans ‹file.pool.multiname index = _›

/-! ### Tags -/

theorem consults_metadataItem (item : Nat × Nat) :
    Consults file (fun table index => table = .string ∧ (index = item.1 ∨ index = item.2))
      (metadataItem file.pool item) := by
  have split : metadataItem file.pool item =
      (if item.1 = 0 then pure none else some <$> file.pool.string item.1) >>= fun key => do
        return (key, ← file.pool.string item.2) := by
    rw [metadataItem]
    split <;> rfl
  rw [split]
  refine .one .optional ⟨rfl, .inl rfl⟩ fun _ _ key => .one .string ⟨rfl, .inr rfl⟩ fun _ _ value => .ok ?_
  rintro _ _ ⟨rfl, rfl | rfl⟩
  · exact key
  · exact value

theorem consults_metadataTag (index : Nat) :
    Consults file (file.TagFollows index) (metadataTag file index) := by
  refine .one (.item rfl rfl) .self fun info read self => ?_
  have found := entry_eq_ok_iff.1 read
  refine .one .string (.name found) fun _ _ named => ?_
  refine .bind (.mapM fun item _ => consults_metadataItem item) ?_ fun _ _ items => .ok fun follows => ?_
  · rintro _ _ ⟨item, listed, rfl, rfl | rfl⟩
    · exact .key found listed
    · exact .value found listed
  · cases follows with
    | self => exact self
    | name found' =>
      cases found.symm.trans found'
      exact named
    | key found' listed =>
      cases found.symm.trans found'
      exact items ⟨_, listed, rfl, .inl rfl⟩
    | value found' listed =>
      cases found.symm.trans found'
      exact items ⟨_, listed, rfl, .inr rfl⟩

/-! ### Methods -/

/-- What the parameter at a place leads to. -/
def ParamFollows (file : File) (info : MethodInfo) (place typeName : Nat) (table : TableKind) (index : Nat) :
    Prop :=
  table = .string ∧ info.paramNames[place]? = some index ∨ NameFollows file.pool typeName table index

theorem consults_paramDef (acyclic : file.pool.Acyclic) (info : MethodInfo) (place typeName : Nat) :
    Consults file (ParamFollows file info place typeName) (paramDef file info place typeName) := by
  have rest (found : Option String) (named : ∀ name, info.paramNames[place]? = some name →
      file.Has .string name) : Consults file (ParamFollows file info place typeName) (do
        let typeName ← name file.pool typeName
        return (⟨found, typeName, info.paramTypes.length - info.options.length ≤ place⟩ : ParamDef)) := by
    refine .bind (consults_name acyclic typeName) .inr fun _ _ typed => .ok ?_
    rintro _ _ (⟨rfl, there⟩ | inner)
    · exact named _ there
    · exact typed inner
  cases there : info.paramNames[place]? with
  | none =>
    simp only [paramDef, there]
    exact rest _ fun name named => by cases there.symm.trans named
  | some index =>
    have split : paramDef file info place typeName =
        (if index = 0 then pure none else some <$> file.pool.string index) >>= fun found => do
          let typeName ← name file.pool typeName
          return (⟨found, typeName, info.paramTypes.length - info.options.length ≤ place⟩ : ParamDef) := by
      simp only [paramDef, there]
      split <;> rfl
    rw [split]
    refine .one .optional (.inl ⟨rfl, there⟩) fun found _ here => rest found fun name named => ?_
    cases there.symm.trans named
    exact here

/-- To read a signature consults the method, its types and what is stored of its parameters. -/
theorem consults_signature (acyclic : file.pool.Acyclic) (method : Nat) :
    Consults file (file.MethodFollows method) (signature file method) := by
  refine .one (.item rfl rfl) .self fun info read self => ?_
  have found := entry_eq_ok_iff.1 read
  refine .bind (.along (W := ParamFollows file info) (paramDefs file info) (fun _ => rfl) (fun _ _ _ => rfl)
    fun n typeName _ => consults_paramDef acyclic info (0 + n) typeName) ?_ fun _ _ params => ?_
  · rintro _ _ ⟨n, typeName, typed, ⟨rfl, named⟩ | inner⟩
    · rw [Nat.zero_add] at named
      exact .parameterName found typed named
    · exact .parameterType found (List.mem_of_getElem? typed) inner
  refine .bind (consults_name acyclic _) (.returnType found) fun _ _ returned => .ok fun follows => ?_
  cases follows with
  | self => exact self
  | @parameterName _ typeName name place found' typed named =>
    cases found.symm.trans found'
    exact params ⟨place, typeName, typed, .inl ⟨rfl, (Nat.zero_add place).symm ▸ named⟩⟩
  | parameterType found' listed inner =>
    cases found.symm.trans found'
    obtain ⟨place, typed⟩ := List.mem_iff_getElem?.1 listed
    exact params ⟨place, _, typed, .inr inner⟩
  | returnType found' inner =>
    cases found.symm.trans found'
    exact returned inner

/-! ### Traits -/

/-- What the data of a member lead to. -/
def DataFollows (file : File) : TraitData → TableKind → Nat → Prop
  | .slot _ _ typeName _ => NameFollows file.pool typeName
  | .method _ _ method | .function _ method => file.MethodFollows method
  | .classRef .. => fun _ _ => False

theorem follows_of_data {info : TraitInfo} {data : TraitData} (same : info.data = data)
    (inner : DataFollows file data table index) : file.TraitFollows info table index := by
  cases data with
  | slot => exact .slot same inner
  | method => exact .method same inner
  | classRef => exact inner.elim
  | function => exact .function same inner

theorem consults_traitBody (acyclic : file.pool.Acyclic) (data : TraitData) :
    Consults file (DataFollows file data) (traitBody file data) := by
  cases data with
  | slot => exact .bind (consults_name acyclic _) id fun _ _ has => .ok has
  | method | function => exact .bind (consults_signature acyclic _) id fun _ _ has => .ok has
  | classRef => exact .ok False.elim

/-- To read a trait consults its name, its tags and what its data refer to. -/
theorem consults_traitDef (acyclic : file.pool.Acyclic) (info : TraitInfo) :
    Consults file (file.TraitFollows info) (traitDef file info) := by
  refine .bind (consults_memberName _) .name fun _ _ named => ?_
  refine .bind (consults_traitBody acyclic info.data) (follows_of_data rfl) fun _ _ body => ?_
  refine .bind (.mapM fun tag _ => consults_metadataTag tag) (fun ⟨tag, listed, inner⟩ => .tag listed inner)
    fun _ _ tags => .ok fun follows => ?_
  cases follows with
  | name inner => exact named inner
  | slot data inner | method data inner | function data inner =>
    rw [data] at body
    exact body inner
  | tag listed inner => exact tags ⟨_, listed, inner⟩

end Resolve

end AbcBuild
