/-
Module: AbcBuild.Proofs.Format
Purpose: The format of a block, part by part, and what follows for whole blocks: exactly the well-formed
  blocks are read back from what is written for them, what is read can be written again with no more bytes,
  and no block that can be read is a prefix of another.
Main exports: Format.file, File.decode_encode_iff, File.decode_encode_of_decode, File.decode_cut_and_extended
-/
import AbcBuild.Abc.Decode
import AbcBuild.Abc.Encode
import AbcBuild.Proofs.Utf8
import AbcBuild.Proofs.WellFormed

namespace AbcBuild.Abc

theorem NamespaceKind.ofCode?_eq_some (b : UInt8) (k : NamespaceKind) :
    NamespaceKind.ofCode? b = some k ↔ k.code = b := by
  constructor
  · exact fun h => by simpa using List.find?_some h
  · rintro rfl
    cases k <;> rfl

theorem ConstantKind.ofCode?_eq_some (b : UInt8) (k : ConstantKind) :
    ConstantKind.ofCode? b = some k ↔ k.code = b := by
  constructor
  · exact fun h => by simpa using List.find?_some h
  · rintro rfl
    cases k with
    | space kind => cases kind <;> rfl
    | _ => rfl

namespace Format

variable {α : Type} {valid : α → Prop}

theorem small : Codec Reader.u30 Writer.u30 Small := Codec.u30

theorem counted {reader : Reader α} {writer : α → List UInt8} (h : Codec reader writer valid) :
    Codec (Reader.counted reader) (Writer.counted writer) (Counted valid) := h.counted

/-- A count that includes the implied entry; counts 0 and 1 both mean an empty table, which is written with
    0. -/
theorem poolCount :
    Codec (do let count ← Reader.u30; return count - 1) (fun n => Writer.u30 (if n = 0 then 0 else n + 1))
      (fun n => n ≤ 1073741822) := by
  refine small.via (fun count => count - 1) (fun n => if n = 0 then 0 else n + 1) (fun n hn => ?_)
    (fun count hcount => ?_)
  · unfold Small
    split <;> omega
  · unfold Small at hcount
    refine ⟨by omega, ?_⟩
    rcases Nat.lt_or_ge count 2 with low | high
    · have cases01 : count = 0 ∨ count = 1 := by omega
      rcases cases01 with rfl | rfl <;> decide
    · rw [if_neg (by omega), Nat.sub_add_cancel (by omega)]

/-- A table of the pool stores one more than its length, as its first entry is implied. -/
theorem poolTable {reader : Reader α} {writer : α → List UInt8} (h : Codec reader writer valid) :
    Codec (Decode.poolTable reader) (Encode.poolTable writer) (Pooled valid) := by
  have split : Decode.poolTable reader =
      (do let count ← Reader.u30; return count - 1) >>= fun n => Reader.times n reader := by
    simp [Decode.poolTable]
  rw [split]
  refine (poolCount.list h).congr (fun items => Iff.rfl) fun items _ => ?_
  cases items <;> rfl

/-- The values of one kind, which hold two indices. -/
theorem indexPair {code : α → UInt8} {whole : α → List UInt8} {b : UInt8}
    (make : Nat → Nat → α) (written : ∀ x y, whole (make x y) = Writer.u30 x ++ Writer.u30 y)
    (coded : ∀ x y, code (make x y) = b) (told : ∀ a, code a = b → ∃ x y, a = make x y)
    (fits : ∀ x y, valid (make x y) ↔ Small x ∧ Small y) :
    Codec (do let x ← Reader.u30; let y ← Reader.u30; return make x y) whole (fun a => code a = b ∧
      valid a) := by
  refine (small.two whole make small written).congr (fun a => ?_) fun _ _ => rfl
  constructor
  · rintro ⟨hcode, valid_a⟩
    obtain ⟨x, y, rfl⟩ := told a hcode
    exact ⟨x, ((fits x y).1 valid_a).1, y, ((fits x y).1 valid_a).2, rfl⟩
  · rintro ⟨x, hx, y, hy, rfl⟩
    exact ⟨coded x y, (fits x y).2 ⟨hx, hy⟩⟩

/-- A kind told by one byte. -/
theorem kind (what : Tagged) {ofCode? : UInt8 → Option α} {code : α → UInt8}
    (known : ∀ b k, ofCode? b = some k ↔ code k = b) :
    Codec (Decode.kind what ofCode?) (fun k => [code k]) (fun _ => True) := by
  refine (Codec.seq code Codec.u8 (fun _ _ => trivial) fun b _ => ?_ : Codec _ (fun k => [code k] ++ []) _)
  cases hb : ofCode? b with
  | some k =>
    refine Codec.done k fun k' => ?_
    rw [and_true, ← known b k', hb, Option.some_inj]
    exact eq_comm
  | none =>
    refine Codec.fails _ _ fun k hk => ?_
    rw [(known b k).2 hk.1] at hb
    cases hb

theorem spaceInfo : Codec Decode.spaceInfo Encode.spaceInfo NamespaceInfo.WellFormed := by
  refine (Codec.two Encode.spaceInfo NamespaceInfo.mk (kind .space NamespaceKind.ofCode?_eq_some) small
    fun k name => rfl).congr (fun info => ?_) fun _ _ => rfl
  cases info
  simp [NamespaceInfo.WellFormed]

theorem optionalValue : Codec Decode.optionalValue Encode.optionalValue OptionalValue.WellFormed := by
  refine (Codec.two Encode.optionalValue (fun index kind => ⟨kind, index⟩) small
    (kind .constant ConstantKind.ofCode?_eq_some) fun index k => rfl).congr (fun info => ?_) fun _ _ => rfl
  cases info
  simp [OptionalValue.WellFormed]

/-! ### Names -/

/-- Names of one form, which differ only in what they refer to. -/
inductive SameForm : MultinameInfo → MultinameInfo → Prop where
  | qname (attr : Bool) (space name space' name' : Nat) : SameForm (.qname attr space name)
    (.qname attr space' name')
  | runtimeSpace (attr : Bool) (name name' : Nat) : SameForm (.runtimeSpace attr name)
    (.runtimeSpace attr name')
  | runtimeBoth (attr : Bool) : SameForm (.runtimeBoth attr) (.runtimeBoth attr)
  | multiname (attr : Bool) (name spaceSet name' spaceSet' : Nat) :
      SameForm (.multiname attr name spaceSet) (.multiname attr name' spaceSet')
  | runtimeName (attr : Bool) (spaceSet spaceSet' : Nat) :
      SameForm (.runtimeName attr spaceSet) (.runtimeName attr spaceSet')
  | typeName (base : Nat) (parameters : List Nat) (base' : Nat) (parameters' : List Nat) :
      SameForm (.typeName base parameters) (.typeName base' parameters')

/-- The first byte tells the form. -/
theorem sameForm_of_code {info other : MultinameInfo} (h : info.code = other.code) :
    SameForm info other := by
  cases info with
  | typeName =>
    cases other with
    | typeName => constructor
    | qname attr | runtimeSpace attr | runtimeBoth attr | multiname attr | runtimeName attr =>
      cases attr <;> simp [MultinameInfo.code] at h
  | qname attr | runtimeSpace attr | runtimeBoth attr | multiname attr | runtimeName attr =>
    cases other with
    | typeName => cases attr <;> simp [MultinameInfo.code] at h
    | qname attr' | runtimeSpace attr' | runtimeBoth attr' | multiname attr' | runtimeName attr' =>
      cases attr <;> cases attr' <;> simp [MultinameInfo.code] at h <;> constructor

theorem qname (attr : Bool) : Codec (Decode.qname attr) Encode.multinameForm
    (fun info => info.code = (MultinameInfo.qname attr 0 0).code ∧ info.WellFormed) := by
  refine indexPair (MultinameInfo.qname attr) (fun _ _ => rfl) (fun _ _ => rfl) (fun info hcode => ?_)
    fun _ _ => Iff.rfl
  cases sameForm_of_code hcode
  exact ⟨_, _, rfl⟩

theorem runtimeSpace (attr : Bool) : Codec (Decode.runtimeSpace attr) Encode.multinameForm
    (fun info => info.code = (MultinameInfo.runtimeSpace attr 0).code ∧ info.WellFormed) := by
  refine (small.one Encode.multinameForm (MultinameInfo.runtimeSpace attr) fun name => rfl).congr
    (fun info => ?_) fun _ _ => rfl
  constructor
  · rintro ⟨hcode, valid⟩
    cases sameForm_of_code hcode
    exact ⟨_, valid, rfl⟩
  · rintro ⟨name, hname, rfl⟩
    exact ⟨rfl, hname⟩

theorem runtimeBoth (attr : Bool) : Codec (return .runtimeBoth attr) Encode.multinameForm
    (fun info => info.code = (MultinameInfo.runtimeBoth attr).code ∧ info.WellFormed) := by
  refine (Codec.done (MultinameInfo.runtimeBoth attr) fun info => Iff.rfl).congr (fun info => ?_)
    fun info hinfo => ?_
  · constructor
    · rintro ⟨hcode, -⟩
      cases sameForm_of_code hcode
      rfl
    · rintro rfl
      exact ⟨rfl, trivial⟩
  · cases sameForm_of_code hinfo.1
    rfl

theorem multiname (attr : Bool) : Codec (Decode.multiname attr) Encode.multinameForm
    (fun info => info.code = (MultinameInfo.multiname attr 0 0).code ∧ info.WellFormed) := by
  refine indexPair (MultinameInfo.multiname attr) (fun _ _ => rfl) (fun _ _ => rfl) (fun info hcode => ?_)
    fun _ _ => Iff.rfl
  cases sameForm_of_code hcode
  exact ⟨_, _, rfl⟩

theorem runtimeName (attr : Bool) : Codec (Decode.runtimeName attr) Encode.multinameForm
    (fun info => info.code = (MultinameInfo.runtimeName attr 0).code ∧ info.WellFormed) := by
  refine (small.one Encode.multinameForm (MultinameInfo.runtimeName attr) fun spaceSet => rfl).congr
    (fun info => ?_) fun _ _ => rfl
  constructor
  · rintro ⟨hcode, valid⟩
    cases sameForm_of_code hcode
    exact ⟨_, valid, rfl⟩
  · rintro ⟨spaceSet, hspaceSet, rfl⟩
    exact ⟨rfl, hspaceSet⟩

theorem typeName : Codec Decode.typeName Encode.multinameForm
    (fun info => info.code = (MultinameInfo.typeName 0 []).code ∧ info.WellFormed) := by
  refine (small.two Encode.multinameForm MultinameInfo.typeName (counted small) fun base parameters =>
    rfl).congr (fun info => ?_) fun _ _ => rfl
  constructor
  · rintro ⟨hcode, valid⟩
    cases sameForm_of_code hcode
    exact ⟨_, valid.1, _, valid.2, rfl⟩
  · rintro ⟨base, hbase, parameters, hparameters, rfl⟩
    exact ⟨rfl, hbase, hparameters⟩

/-- A name is stored as the code of its form and then its data, and the code tells which form to read. -/
theorem multinameInfo : Codec Decode.multinameInfo Encode.multinameInfo MultinameInfo.WellFormed := by
  refine (Codec.seq MultinameInfo.code Codec.u8 (fun _ _ => trivial) fun b _ => ?_ : Codec _
    (fun info => [info.code] ++ Encode.multinameForm info) _)
  refine Codec.ite (fun h => h ▸ qname false) fun h07 => ?_
  refine Codec.ite (fun h => h ▸ qname true) fun h0d => ?_
  refine Codec.ite (fun h => h ▸ runtimeSpace false) fun h0f => ?_
  refine Codec.ite (fun h => h ▸ runtimeSpace true) fun h10 => ?_
  refine Codec.ite (fun h => h ▸ runtimeBoth false) fun h11 => ?_
  refine Codec.ite (fun h => h ▸ runtimeBoth true) fun h12 => ?_
  refine Codec.ite (fun h => h ▸ multiname false) fun h09 => ?_
  refine Codec.ite (fun h => h ▸ multiname true) fun h0e => ?_
  refine Codec.ite (fun h => h ▸ runtimeName false) fun h1b => ?_
  refine Codec.ite (fun h => h ▸ runtimeName true) fun h1c => ?_
  refine Codec.ite (fun h => h ▸ typeName) fun h1d => ?_
  refine Codec.fails _ _ ?_
  rintro info ⟨rfl, -⟩
  rcases info with ⟨_ | _, _, _⟩ | ⟨_ | _, _⟩ | ⟨_ | _⟩ | ⟨_ | _, _, _⟩ | ⟨_ | _, _⟩ | _
  · exact h07 rfl
  · exact h0d rfl
  · exact h0f rfl
  · exact h10 rfl
  · exact h11 rfl
  · exact h12 rfl
  · exact h09 rfl
  · exact h0e rfl
  · exact h1b rfl
  · exact h1c rfl
  · exact h1d rfl

/-! ### The constant tables -/

/-- The tables of the pool follow each other in the order of the format. -/
theorem constantPool : Codec Decode.constantPool Encode.constantPool ConstantPool.WellFormed := by
  refine Codec.closed ?_
  simp only [Encode.constantPool, List.append_assoc]
  refine (poolTable Codec.s32).seq ConstantPool.ints (fun _ valid => valid.ints) fun ints hints => ?_
  refine (poolTable Codec.u32).seq ConstantPool.uints (fun _ ⟨_, valid⟩ => valid.uints)
    fun uints huints => ?_
  refine (poolTable Codec.d64).seq ConstantPool.doubles (fun _ ⟨_, _, valid⟩ => valid.doubles)
    fun doubles hdoubles => ?_
  refine (poolTable Codec.string).seq ConstantPool.strings (fun _ ⟨_, _, _, valid⟩ => valid.strings)
    fun strings hstrings => ?_
  refine (poolTable spaceInfo).seq ConstantPool.spaces (fun _ ⟨_, _, _, _, valid⟩ => valid.spaces)
    fun spaces hspaces => ?_
  refine (poolTable (counted small)).seq ConstantPool.spaceSets (fun _ ⟨_, _, _, _, _, valid⟩ =>
    valid.spaceSets) fun spaceSets hspaceSets => ?_
  refine (poolTable multinameInfo).seq ConstantPool.multinames (fun _ ⟨_, _, _, _, _, _, valid⟩ =>
    valid.multinames) fun multinames hmultinames => ?_
  refine Codec.done _ fun pool => ?_
  constructor
  · rintro ⟨rfl, rfl, rfl, rfl, rfl, rfl, rfl, -⟩
    rfl
  · rintro rfl
    exact ⟨rfl, rfl, rfl, rfl, rfl, rfl, rfl, hints, huints, hdoubles, hstrings, hspaces,
      hspaceSets, hmultinames⟩

/-! ### Methods and metadata -/

theorem methodInfo : Codec Decode.methodInfo Encode.methodInfo MethodInfo.WellFormed := by
  refine Codec.closed ?_
  simp only [Encode.methodInfo, List.append_assoc]
  refine small.seq (fun info : MethodInfo => info.paramTypes.length) (fun _ valid => valid.paramTypes.1)
    fun count hcount => ?_
  refine small.seq MethodInfo.returnType (fun _ ⟨_, valid⟩ => valid.returnType)
    fun returnType hreturnType => ?_
  refine (small.times count).seq MethodInfo.paramTypes (fun _ ⟨_, hlength, valid⟩ =>
    ⟨hlength, valid.paramTypes.2⟩) fun paramTypes htypes => ?_
  refine small.seq MethodInfo.name (fun _ ⟨_, _, _, valid⟩ => valid.name) fun name hname => ?_
  refine Codec.u8.seq MethodInfo.flags (fun _ _ => trivial) fun flags _ => ?_
  refine (counted optionalValue).seqIf (fun info => info.flags.has MethodFlag.hasOptional) MethodInfo.options
    (fun info h => ?_) (fun info h => ?_) fun options hoptions => ?_
  · rw [h.1]
  · obtain ⟨rfl, -, -, -, -, valid⟩ := h
    exact valid.options
  refine (small.times count).seqIf (fun info => info.flags.has MethodFlag.hasParamNames)
    MethodInfo.paramNames (fun info h => ?_) (fun info h => ?_) fun paramNames hparamNames => ?_
  · rw [h.2.1]
  · obtain ⟨-, rfl, -, -, -, rfl, valid⟩ := h
    exact valid.paramNames
  refine Codec.done _ fun info => ?_
  constructor
  · rintro ⟨rfl, rfl, rfl, rfl, rfl, rfl, rfl, -⟩
    rfl
  · rintro rfl
    obtain ⟨rfl, small_types⟩ := htypes
    exact ⟨rfl, rfl, rfl, rfl, rfl, rfl, rfl, ⟨hcount, small_types⟩, hreturnType, hname,
      hoptions, hparamNames⟩

theorem metadataInfo : Codec Decode.metadataInfo Encode.metadataInfo MetadataInfo.WellFormed := by
  refine Codec.closed ?_
  have columns (info : MetadataInfo) : Encode.metadataInfo info =
      Writer.u30 info.name ++ Writer.u30 info.items.length ++
        (info.items.map Prod.fst).flatMap Writer.u30 ++ (info.items.map Prod.snd).flatMap Writer.u30 := by
    simp [Encode.metadataInfo, List.flatMap_map]
  simp only [columns, List.append_assoc]
  refine small.seq MetadataInfo.name (fun _ valid => valid.name) fun name hname => ?_
  refine small.seq (fun info : MetadataInfo => info.items.length) (fun _ ⟨_, valid⟩ => valid.items.1)
    fun count hcount => ?_
  refine (small.times count).seq (fun info : MetadataInfo => info.items.map Prod.fst) (fun info h => ?_)
    fun keys hkeys => ?_
  · obtain ⟨hlength, -, valid⟩ := h
    refine ⟨by simpa using hlength, fun key hkey => ?_⟩
    obtain ⟨item, hitem, rfl⟩ := List.mem_map.1 hkey
    exact (valid.items.2 item hitem).1
  refine (small.times count).seq (fun info : MetadataInfo => info.items.map Prod.snd) (fun info h => ?_)
    fun values hvalues => ?_
  · obtain ⟨-, hlength, -, valid⟩ := h
    refine ⟨by simpa using hlength, fun value hvalue => ?_⟩
    obtain ⟨item, hitem, rfl⟩ := List.mem_map.1 hvalue
    exact (valid.items.2 item hitem).2
  refine Codec.done _ fun info => ?_
  have same : keys.length = values.length := by rw [hkeys.1, hvalues.1]
  constructor
  · rintro ⟨rfl, rfl, -, rfl, -⟩
    exact congrArg (MetadataInfo.mk info.name) (List.zip_of_prod rfl rfl)
  · rintro rfl
    refine ⟨List.map_snd_zip same.ge, List.map_fst_zip same.le, ?_, rfl, hname, ?_, fun item hitem => ?_⟩
    · simp [← same, hkeys.1]
    · simpa [← same, hkeys.1] using hcount
    · have parts := List.of_mem_zip hitem
      exact ⟨hkeys.2 _ parts.1, hvalues.2 _ parts.2⟩

/-! ### Traits -/

/-- The index that is written for the value of a slot: 0 stands for none. -/
def slotIndexOf (value : Option OptionalValue) : Nat := value.elim 0 OptionalValue.index

/-- The kind that is written for the value of a slot. -/
def slotKindOf (value : Option OptionalValue) : List UInt8 :=
  value.elim [] fun constant => [constant.kind.code]

/-- A slot has a byte for the kind of its value only if it has one. -/
theorem slotValue : Codec Decode.slotValue (fun value => Writer.u30 (slotIndexOf value) ++ slotKindOf value)
    (fun value => ∀ constant ∈ value, constant.WellFormed ∧ constant.index ≠ 0) := by
  refine small.seq slotIndexOf (fun value h => ?_) fun index hindex =>
    Codec.ite (fun hzero => ?_) fun hnonzero => ?_
  · cases value with
    | none => exact (by decide : Small 0)
    | some constant => exact (h constant rfl).1
  · refine (Codec.done none fun value => Iff.rfl).congr (fun value => ?_) fun value h => ?_
    · cases value with
      | none => simp [slotIndexOf, hzero]
      | some constant =>
        simp only [reduceCtorEq, iff_false, not_and]
        exact fun heq h => (h constant rfl).2 (heq.trans hzero)
    · cases value with
      | none => rfl
      | some constant => exact absurd (h.1.trans hzero) (h.2 constant rfl).2
  · refine ((kind .constant ConstantKind.ofCode?_eq_some).one slotKindOf (fun kind => some ⟨kind, index⟩)
      fun kind => rfl).congr (fun value => ?_) fun _ _ => rfl
    cases value with
    | none => simpa [slotIndexOf] using Ne.symm hnonzero
    | some constant =>
      constructor
      · rintro ⟨rfl, -⟩
        exact ⟨constant.kind, trivial, rfl⟩
      · rintro ⟨kind, -, heq⟩
        cases heq
        refine ⟨rfl, fun constant hconstant => ?_⟩
        cases hconstant
        exact ⟨hindex, hnonzero⟩

/-- Traits of one kind, which differ only in what they refer to. -/
inductive SameKind : TraitData → TraitData → Prop where
  | slot (isConst : Bool) (number typeName : Nat) (value : Option OptionalValue) (number' typeName' : Nat)
      (value' : Option OptionalValue) :
      SameKind (.slot isConst number typeName value) (.slot isConst number' typeName' value')
  | method (kind : MethodKind) (dispatch target dispatch' target' : Nat) :
      SameKind (.method kind dispatch target) (.method kind dispatch' target')
  | classRef (number index number' index' : Nat) : SameKind (.classRef number index)
    (.classRef number' index')
  | function (number target number' target' : Nat) : SameKind (.function number target)
    (.function number' target')

/-- The number of a kind tells the kind. -/
theorem sameKind_of_code {data other : TraitData} (h : data.code = other.code) : SameKind data other := by
  rcases data with ⟨_ | _, _, _, _⟩ | ⟨_ | _ | _, _, _⟩ | _ | _ <;>
    rcases other with ⟨_ | _, _, _, _⟩ | ⟨_ | _ | _, _, _⟩ | _ | _ <;>
    first
    | constructor
    | exact absurd h (by simp [TraitData.code])

theorem slot (isConst : Bool) : Codec (Decode.slot isConst) Encode.traitData
    (fun data => data.code = (TraitData.slot isConst 0 0 none).code ∧ data.WellFormed) := by
  refine (small.three Encode.traitData (TraitData.slot isConst) small slotValue fun number typeName value =>
    ?_).congr (fun data => ?_) fun _ _ => rfl
  · cases value <;> simp [Encode.traitData, Encode.optionalValue, slotIndexOf, slotKindOf]
  · constructor
    · rintro ⟨hcode, valid⟩
      cases sameKind_of_code hcode
      exact ⟨_, valid.1, _, valid.2.1, _, valid.2.2, rfl⟩
    · rintro ⟨number, hnumber, typeName, htypeName, value, hvalue, rfl⟩
      exact ⟨rfl, hnumber, htypeName, hvalue⟩

theorem method (kind : MethodKind) : Codec (Decode.method kind) Encode.traitData
    (fun data => data.code = (TraitData.method kind 0 0).code ∧ data.WellFormed) := by
  refine indexPair (TraitData.method kind) (fun _ _ => rfl) (fun _ _ => by cases kind <;> rfl)
    (fun data hcode => ?_) fun _ _ => Iff.rfl
  cases sameKind_of_code hcode
  exact ⟨_, _, rfl⟩

theorem classRef : Codec Decode.classRef Encode.traitData
    (fun data => data.code = (TraitData.classRef 0 0).code ∧ data.WellFormed) := by
  refine indexPair TraitData.classRef (fun _ _ => rfl) (fun _ _ => rfl) (fun data hcode => ?_)
    fun _ _ => Iff.rfl
  cases sameKind_of_code hcode
  exact ⟨_, _, rfl⟩

theorem function : Codec Decode.function Encode.traitData
    (fun data => data.code = (TraitData.function 0 0).code ∧ data.WellFormed) := by
  refine indexPair TraitData.function (fun _ _ => rfl) (fun _ _ => rfl) (fun data hcode => ?_)
    fun _ _ => Iff.rfl
  cases sameKind_of_code hcode
  exact ⟨_, _, rfl⟩

theorem traitData (code : UInt8) : Codec (Decode.traitData code) Encode.traitData
    (fun data => data.code = code ∧ data.WellFormed) := by
  refine Codec.ite (fun h => h ▸ slot false) fun h0 => ?_
  refine Codec.ite (fun h => h ▸ method .method) fun h1 => ?_
  refine Codec.ite (fun h => h ▸ method .getter) fun h2 => ?_
  refine Codec.ite (fun h => h ▸ method .setter) fun h3 => ?_
  refine Codec.ite (fun h => h ▸ classRef) fun h4 => ?_
  refine Codec.ite (fun h => h ▸ function) fun h5 => ?_
  refine Codec.ite (fun h => h ▸ slot true) fun h6 => ?_
  refine Codec.fails _ _ ?_
  rintro data ⟨rfl, -⟩
  rcases data with ⟨_ | _, _, _, _⟩ | ⟨_ | _ | _, _, _⟩ | _ | _
  · exact h0 rfl
  · exact h6 rfl
  · exact h1 rfl
  · exact h2 rfl
  · exact h3 rfl
  · exact h4 rfl
  · exact h5 rfl

/-- A byte is made of two halves. -/
theorem halves_of_byte : ∀ low high : Fin 16,
    UInt8.ofNat (high * 16 + low) &&& (0x0f : UInt8) = UInt8.ofNat low
      ∧ UInt8.ofNat (high * 16 + low) >>> (4 : UInt8) = UInt8.ofNat high
      ∧ UInt8.ofNat low ||| UInt8.ofNat (high * 16) = UInt8.ofNat (high * 16 + low) := by
  decide

theorem code_lt (data : TraitData) : data.code.toNat < 16 := by
  rcases data with ⟨_ | _, _, _, _⟩ | ⟨_ | _ | _, _, _⟩ | _ | _ <;> simp [TraitData.code]

theorem traitTag_halves {info : TraitInfo} (h : info.attributes.toNat < 16) :
    Encode.traitTag info &&& 0x0f = info.data.code ∧ Encode.traitTag info >>> 4 = info.attributes := by
  obtain ⟨low, high, whole⟩ :=
    halves_of_byte ⟨info.data.code.toNat, code_lt info.data⟩ ⟨info.attributes.toNat, h⟩
  simp only [UInt8.ofNat_toNat] at low high whole
  rw [Encode.traitTag, whole]
  exact ⟨low, high⟩

theorem tag_of_halves (tag : UInt8) :
    (tag &&& (0x0f : UInt8)) ||| UInt8.ofNat ((tag >>> 4).toNat * 16) = tag ∧ (tag >>> 4).toNat < 16 := by
  have bound : tag.toNat < 256 := tag.toNat_lt
  obtain ⟨low, high, whole⟩ := halves_of_byte ⟨tag.toNat % 16, by omega⟩ ⟨tag.toNat / 16, by omega⟩
  simp only [Nat.div_add_mod', UInt8.ofNat_toNat] at low high whole
  have small : (UInt8.ofNat (tag.toNat / 16)).toNat = tag.toNat / 16 := Groups.toNat_ofNat_of_lt (by omega)
  rw [low, high, small, whole]
  exact ⟨rfl, by omega⟩

/-- A trait stores its kind and its attributes in the halves of one byte. -/
theorem traitInfo : Codec Decode.traitInfo Encode.traitInfo TraitInfo.WellFormed := by
  refine Codec.closed ?_
  simp only [Encode.traitInfo, List.append_assoc]
  refine small.seq TraitInfo.name (fun _ valid => valid.name) fun name hname => ?_
  refine Codec.u8.seq Encode.traitTag (fun _ _ => trivial) fun tag _ => ?_
  obtain ⟨htag, hattributes⟩ := tag_of_halves tag
  refine (traitData (tag &&& 0x0f)).seq TraitInfo.data (fun info h => ?_) fun data hdata => ?_
  · obtain ⟨rfl, -, valid⟩ := h
    exact ⟨(traitTag_halves valid.attributes).1.symm, valid.data⟩
  refine (counted small).seqIf (fun info => info.attributes.has TraitFlag.metadata) TraitInfo.metadata
    (fun info h => ?_) (fun info h => ?_) fun metadata hmetadata => ?_
  · obtain ⟨-, rfl, -, valid⟩ := h
    rw [(traitTag_halves valid.attributes).2]
  · obtain ⟨-, rfl, -, valid⟩ := h
    rw [(traitTag_halves valid.attributes).2]
    exact valid.metadata
  refine Codec.done _ fun info => ?_
  constructor
  · rintro ⟨rfl, rfl, rfl, rfl, valid⟩
    rw [(traitTag_halves valid.attributes).2]
  · rintro rfl
    refine ⟨rfl, rfl, ?_, rfl, hname, hattributes, hdata.2, hmetadata⟩
    rw [Encode.traitTag, hdata.1, htag]

/-! ### Classes, scripts and bodies -/

/-- The namespace of protected members, which a flag announces. -/
theorem protectedSpace :
    Codec (some <$> Reader.u30) (fun space => (space.map Writer.u30).getD [])
      (fun space => space.isSome ∧ ∀ n ∈ space, Small n) := by
  rw [map_eq_pure_bind]
  refine (small.one (fun space => (space.map Writer.u30).getD []) some fun n => rfl).congr (fun space => ?_)
    fun _ _ => rfl
  cases space <;> simp

theorem instanceInfo : Codec Decode.instanceInfo Encode.instanceInfo InstanceInfo.WellFormed := by
  refine Codec.closed ?_
  have announced (info : InstanceInfo) (valid : info.WellFormed) : Encode.instanceInfo info ++ [] =
      Writer.u30 info.name ++ (Writer.u30 info.superName ++ ([info.flags] ++
        ((if info.flags.has InstanceFlag.protectedSpace then (info.protectedSpace.map Writer.u30).getD
        [] else []) ++
          (Writer.counted Writer.u30 info.interfaces ++ (Writer.u30 info.init ++
            (Writer.counted Encode.traitInfo info.traits ++ [])))))) := by
    rw [← valid.announced]
    cases hspace : info.protectedSpace <;> simp [Encode.instanceInfo, hspace]
  refine Codec.congr ?_ (fun _ => Iff.rfl) announced
  refine small.seq InstanceInfo.name (fun _ valid => valid.name) fun name hname => ?_
  refine small.seq InstanceInfo.superName (fun _ ⟨_, valid⟩ => valid.superName)
    fun superName hsuperName => ?_
  refine Codec.u8.seq InstanceInfo.flags (fun _ _ => trivial) fun flags _ => ?_
  refine protectedSpace.seqIf (fun info => info.flags.has InstanceFlag.protectedSpace)
    InstanceInfo.protectedSpace (fun info h => ?_) (fun info h => ?_) fun space hspace => ?_
  · rw [h.1]
  · obtain ⟨rfl, -, -, valid⟩ := h
    rw [← valid.announced]
    cases heq : info.protectedSpace with
    | none => simp
    | some n => exact ⟨rfl, heq ▸ valid.protectedSpace⟩
  refine (counted small).seq InstanceInfo.interfaces (fun _ ⟨_, _, _, _, valid⟩ => valid.interfaces)
    fun interfaces hinterfaces => ?_
  refine small.seq InstanceInfo.init (fun _ ⟨_, _, _, _, _, valid⟩ => valid.init) fun init hinit => ?_
  refine (counted traitInfo).seq InstanceInfo.traits (fun _ ⟨_, _, _, _, _, _, valid⟩ => valid.traits)
    fun traits htraits => ?_
  refine Codec.done _ fun info => ?_
  constructor
  · rintro ⟨rfl, rfl, rfl, rfl, rfl, rfl, rfl, -⟩
    rfl
  · rintro rfl
    refine ⟨rfl, rfl, rfl, rfl, rfl, rfl, rfl, hname, hsuperName, ?_, ?_, hinterfaces, hinit, htraits⟩
    · split at hspace
      next flag =>
        rw [flag]
        exact hspace.1
      next flag =>
        rw [hspace, Bool.eq_false_iff.2 flag]
        rfl
    · split at hspace
      next => exact hspace.2
      next =>
        rw [hspace]
        simp

theorem scopeInfo : Codec Decode.scopeInfo Encode.scopeInfo ScopeInfo.WellFormed := by
  refine (small.two Encode.scopeInfo ScopeInfo.mk (counted traitInfo) fun init traits => rfl).congr
    (fun info => ?_) fun _ _ => rfl
  cases info
  simp [ScopeInfo.wellFormed_iff]

theorem exceptionInfo : Codec Decode.exceptionInfo Encode.exceptionInfo ExceptionInfo.WellFormed := by
  refine Codec.closed ?_
  simp only [Encode.exceptionInfo, List.append_assoc]
  refine small.seq ExceptionInfo.start (fun _ valid => valid.start) fun start hstart => ?_
  refine small.seq ExceptionInfo.stop (fun _ ⟨_, valid⟩ => valid.stop) fun stop hstop => ?_
  refine small.seq ExceptionInfo.target (fun _ ⟨_, _, valid⟩ => valid.target) fun target htarget => ?_
  refine small.seq ExceptionInfo.type (fun _ ⟨_, _, _, valid⟩ => valid.type) fun type htype => ?_
  refine small.seq ExceptionInfo.varName (fun _ ⟨_, _, _, _, valid⟩ => valid.varName)
    fun varName hvarName => ?_
  refine Codec.done _ fun info => ?_
  constructor
  · rintro ⟨rfl, rfl, rfl, rfl, rfl, -⟩
    rfl
  · rintro rfl
    exact ⟨rfl, rfl, rfl, rfl, rfl, hstart, hstop, htarget, htype, hvarName⟩

theorem bodyInfo : Codec Decode.bodyInfo Encode.bodyInfo BodyInfo.WellFormed := by
  refine Codec.closed ?_
  simp only [Encode.bodyInfo, List.append_assoc]
  refine small.seq BodyInfo.method (fun _ valid => valid.method) fun method hmethod => ?_
  refine small.seq BodyInfo.maxStack (fun _ ⟨_, valid⟩ => valid.maxStack) fun maxStack hmaxStack => ?_
  refine small.seq BodyInfo.localCount (fun _ ⟨_, _, valid⟩ => valid.localCount)
    fun localCount hlocalCount => ?_
  refine small.seq BodyInfo.initScopeDepth (fun _ ⟨_, _, _, valid⟩ => valid.initScopeDepth)
    fun initScopeDepth hinitScopeDepth => ?_
  refine small.seq BodyInfo.maxScopeDepth (fun _ ⟨_, _, _, _, valid⟩ => valid.maxScopeDepth)
    fun maxScopeDepth hmaxScopeDepth => ?_
  refine small.seq (fun info : BodyInfo => info.code.length) (fun _ ⟨_, _, _, _, _, valid⟩ => valid.code)
    fun length hlength => ?_
  refine (Codec.bytes length).seq BodyInfo.code (fun _ ⟨hcode, _⟩ => hcode) fun code hcode => ?_
  refine (counted exceptionInfo).seq BodyInfo.exceptions (fun _ ⟨_, _, _, _, _, _, _, valid⟩ =>
    valid.exceptions) fun exceptions hexceptions => ?_
  refine (counted traitInfo).seq BodyInfo.traits (fun _ ⟨_, _, _, _, _, _, _, _, valid⟩ => valid.traits)
    fun traits htraits => ?_
  refine Codec.done _ fun info => ?_
  constructor
  · rintro ⟨rfl, rfl, rfl, rfl, rfl, rfl, rfl, rfl, rfl, -⟩
    rfl
  · rintro rfl
    subst hcode
    exact ⟨rfl, rfl, rfl, rfl, rfl, rfl, rfl, rfl, rfl, hmethod, hmaxStack, hlocalCount, hinitScopeDepth,
      hmaxScopeDepth, hlength, hexceptions, htraits⟩

/-! ### Blocks -/

/-- The bytes of the versions, minor first. -/
def versionOf (version : UInt16 × UInt16) : List UInt8 := Writer.u16 version.1 ++ Writer.u16 version.2

theorem version : Codec Decode.version versionOf (fun version => 46 ≤ version.2.toNat) := by
  refine Codec.closed ?_
  simp only [versionOf, List.append_assoc]
  refine Codec.u16.seq Prod.fst (fun _ _ => trivial) fun minor _ => ?_
  refine Codec.u16.seq Prod.snd (fun _ _ => trivial) fun major _ => ?_
  refine Codec.ite (fun old => ?_) fun supported => ?_
  · refine Codec.fails _ _ ?_
    rintro version ⟨rfl, -, valid⟩
    omega
  · refine Codec.done _ fun version => ?_
    constructor
    · rintro ⟨rfl, rfl, -⟩
      rfl
    · rintro rfl
      exact ⟨rfl, rfl, by simpa using supported⟩

/-- A block is read from what is written for it, and whatever is read was written so, but for bytes that
    follow. -/
theorem file : Codec Decode.file File.encode File.WellFormed := by
  refine Codec.closed ?_
  have parts (file : File) : File.encode file = versionOf (file.minor, file.major) ++ Encode.constantPool
      file.pool ++ Writer.counted Encode.methodInfo file.methods ++ Writer.counted Encode.metadataInfo
        file.metadata ++
      Writer.u30 file.instances.length ++ file.instances.flatMap Encode.instanceInfo ++
      file.classes.flatMap Encode.scopeInfo ++ Writer.counted Encode.scopeInfo file.scripts ++
      Writer.counted Encode.bodyInfo file.bodies := by
    simp only [File.encode, versionOf, Writer.counted, List.append_assoc]
  simp only [parts, List.append_assoc]
  refine version.seq (fun file : File => (file.minor, file.major)) (fun _ valid => valid.major)
    fun (minor, major) hversion => ?_
  refine constantPool.seq File.pool (fun _ ⟨_, valid⟩ => valid.pool) fun pool hpool => ?_
  refine (counted methodInfo).seq File.methods (fun _ ⟨_, _, valid⟩ => valid.methods)
    fun methods hmethods => ?_
  refine (counted metadataInfo).seq File.metadata (fun _ ⟨_, _, _, valid⟩ => valid.metadata)
    fun metadata hmetadata => ?_
  refine small.seq (fun file : File => file.instances.length) (fun _ ⟨_, _, _, _, valid⟩ =>
    valid.instances.1) fun count hcount => ?_
  refine (instanceInfo.times count).seq File.instances
    (fun _ ⟨hlength, _, _, _, _, valid⟩ => ⟨hlength, valid.instances.2⟩) fun instances hinstances => ?_
  refine (scopeInfo.times count).seq File.classes
    (fun _ ⟨_, hlength, _, _, _, _, valid⟩ => ⟨valid.sides.trans hlength, valid.classes⟩)
      fun classes hclasses => ?_
  refine (counted scopeInfo).seq File.scripts (fun _ ⟨_, _, _, _, _, _, _, valid⟩ => valid.scripts)
    fun scripts hscripts => ?_
  refine (counted bodyInfo).seq File.bodies (fun _ ⟨_, _, _, _, _, _, _, _, valid⟩ => valid.bodies)
    fun bodies hbodies => ?_
  refine Codec.done _ fun file => ?_
  constructor
  · rintro ⟨rfl, rfl, rfl, rfl, -, rfl, rfl, rfl, hversions, -⟩
    cases hversions
    rfl
  · rintro rfl
    obtain ⟨rfl, valid_instances⟩ := hinstances
    exact ⟨rfl, rfl, rfl, rfl, rfl, rfl, rfl, rfl, rfl, hversion, hpool, hmethods, hmetadata,
      ⟨hcount, valid_instances⟩, hclasses.1, hclasses.2, hscripts, hbodies⟩

end Format

namespace File

variable {bytes : List UInt8} {file : File}

/-- A block that can be read takes up all bytes. -/
theorem read_of_decode (h : File.decode bytes = .ok file) :
    ∃ after, Decode.file (Reader.start bytes) = .ok file after ∧ after.rest = [] := by
  unfold File.decode at h
  split at h
  next found after read =>
    split at h
    next empty =>
      cases h
      exact ⟨after, read, List.isEmpty_iff.1 empty⟩
    next => cases h
  next => cases h

/-- What is known of bytes that stand for a block. -/
theorem took_of_decode (h : File.decode bytes = .ok file) :
    Reads Decode.file bytes file ∧ Needs Decode.file bytes ∧ file.WellFormed ∧
      file.encode.length ≤ bytes.length := by
  obtain ⟨after, read, empty⟩ := read_of_decode h
  obtain ⟨used, took, valid, short⟩ := Format.file.sound _ _ _ read
  have all : bytes = used := by simpa [empty, Reader.start] using took.input
  subst all
  exact ⟨took.reads, took.needs, valid, short⟩

theorem decode_append (h : Reads Decode.file bytes file) (more : List UInt8) :
    File.decode (bytes ++ more) = if more.isEmpty then .ok file else .error
      (.trailingBytes more.length) := by
  rw [File.decode, Reader.start, h 0 more]

theorem decode_encode (valid : file.WellFormed) : File.decode file.encode = .ok file := by
  have read := decode_append (Format.file.readsBack file valid) []
  rwa [List.append_nil] at read

/-- Exactly the well-formed blocks are read back from what is written for them. -/
theorem decode_encode_iff (file : File) : File.decode file.encode = .ok file ↔ file.WellFormed := by
  constructor
  · intro h
    obtain ⟨-, -, valid, -⟩ := took_of_decode h
    exact valid
  · exact decode_encode

-- a method with a default for its parameter, and a class with a constant slot
example : File.WellFormed
    { pool := { ints := [-1], strings := ["a"], spaces := [⟨.packageSpace, 1⟩],
                multinames := [.qname false 1 1] },
      methods := [{ paramTypes := [1], flags := 0x08, options := [⟨.int, 1⟩] }],
      instances := [⟨1, 0, 0x09, some 1, [], 0, [⟨1, 0x4, .slot true 0 1 (some ⟨.int, 1⟩), [0]⟩]⟩],
      classes := [⟨0, []⟩] } := by
  decide

/-- A block that was read is read again from what is written for it, and that is no longer than what was
    read. -/
theorem decode_encode_of_decode {bytes : List UInt8} {file : File} (h : File.decode bytes = .ok file) :
    File.decode file.encode = .ok file ∧ file.encode.length ≤ bytes.length := by
  obtain ⟨-, -, valid, short⟩ := took_of_decode h
  exact ⟨decode_encode valid, short⟩

/-- An empty table with a count of 1, and an index of five bytes: both are written shorter. -/
theorem decode_encode_of_decode_padded :
    File.decode [16, 0, 46, 0, 1, 0, 0, 2, 1, 97, 2, 0x16, 0x81, 0x80, 0x80, 0x80, 0x40, 0, 0, 0, 0, 0, 0, 0]
        = .ok { pool := { strings := ["a"], spaces := [⟨.packageSpace, 1⟩] } }
      ∧ File.decode (File.encode { pool := { strings := ["a"], spaces := [⟨.packageSpace, 1⟩] } })
        = .ok { pool := { strings := ["a"], spaces := [⟨.packageSpace, 1⟩] } }
      ∧ (File.encode { pool := { strings := ["a"], spaces := [⟨.packageSpace, 1⟩] } }).length ≤ 24 := by
  have read : File.decode
      [16, 0, 46, 0, 1, 0, 0, 2, 1, 97, 2, 0x16, 0x81, 0x80, 0x80, 0x80, 0x40, 0, 0, 0, 0, 0, 0, 0]
        = .ok { pool := { strings := ["a"], spaces := [⟨.packageSpace, 1⟩] } } := rfl
  exact ⟨read, decode_encode_of_decode read⟩

/-- Of the bytes of a block, no less and no more can be read: where they are cut short the end of the data is
    found, and what follows them is counted. -/
theorem decode_cut_and_extended {bytes : List UInt8} {file : File} (h : File.decode bytes = .ok file) :
    (∀ cut, cut <+: bytes → cut ≠ bytes → File.decode cut = .error (.unexpectedEnd cut.length))
      ∧ ∀ more, more ≠ [] → File.decode (bytes ++ more) = .error (.trailingBytes more.length) := by
  obtain ⟨reads, needs, -, -⟩ := took_of_decode h
  constructor
  · intro cut hcut hne
    obtain ⟨stop, hstop⟩ := needs 0 cut hcut hne
    rw [File.decode, Reader.start, hstop, Nat.zero_add]
  · intro more hmore
    rw [decode_append reads more, if_neg (by simpa using hmore)]

/-- A block with two strings, a namespace, a set of it, a name, and a method whose parameter has a
    default. -/
def methodBlock : List UInt8 :=
  [16, 0, 46, 0, 0, 0, 0, 3, 2, 102, 112, 1, 109, 2, 0x16, 1, 2, 1, 1, 2, 0x07, 1, 2,
    1, 1, 0, 1, 2, 0x08, 1, 1, 0x01, 0, 0, 0, 0]

/-- The block is cut inside of its first string, and before the kind of the default; two bytes follow it. -/
theorem decode_cut_and_extended_method :
    File.decode methodBlock = .ok
        { pool := { strings := ["fp", "m"], spaces := [⟨.packageSpace, 1⟩], spaceSets := [[1]],
                    multinames := [.qname false 1 2] },
          methods := [{ paramTypes := [1], name := 2, flags := 0x08, options := [⟨.string, 1⟩] }] }
      ∧ File.decode (methodBlock.take 10) = .error (.unexpectedEnd 10)
      ∧ File.decode (methodBlock.take 31) = .error (.unexpectedEnd 31)
      ∧ File.decode (methodBlock ++ [7, 7]) = .error (.trailingBytes 2) := by
  have read : File.decode methodBlock = .ok
      { pool := { strings := ["fp", "m"], spaces := [⟨.packageSpace, 1⟩], spaceSets := [[1]],
                  multinames := [.qname false 1 2] },
        methods := [{ paramTypes := [1], name := 2, flags := 0x08, options := [⟨.string, 1⟩] }] } := rfl
  obtain ⟨cut, extended⟩ := decode_cut_and_extended read
  exact ⟨read, cut _ (List.take_prefix 10 _) (by decide), cut _ (List.take_prefix 31 _) (by decide),
    extended [7, 7] (by decide)⟩

end File

end AbcBuild.Abc
