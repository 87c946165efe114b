/-
Module: AbcBuild.Proofs.Capacity
Purpose: A block that is built from a class whose members are texts can be written as long as its tables have
  room.  Each step of the builder has a cost, which is what it adds to the tables at most.
Main exports: Abc.File.Light, Abc.File.load, Abc.ClassSpec.Textual, Abc.ClassSpec.Textual.wellFormed
-/
import AbcBuild.Proofs.BuiltBlocks
import Mathlib.Algebra.Order.Group.Nat
import Mathlib.Algebra.Order.Monoid.Prod
import Mathlib.Algebra.Module.Prod

namespace AbcBuild.Abc

/-! ### What a block holds -/

/-- There are not too many traits, and none has tags. -/
abbrev Untagged : List TraitInfo → Prop := Counted fun t => t.metadata = []

namespace File

/-- The numbers of strings, of namespaces and of names, and that of all methods, bodies, classes and
    scripts. -/
def load (f : File) : Nat × Nat × Nat × Nat :=
  (f.pool.strings.length, f.pool.spaces.length, f.pool.multinames.length,
    f.methods.length + f.bodies.length + f.instances.length + f.scripts.length)

/-- Nothing is large in the block but what its load counts. -/
structure Light (f : File) : Prop where
  constants : f.pool.ints = [] ∧ f.pool.uints = [] ∧ f.pool.doubles = [] ∧ f.pool.spaceSets = []
  strings : ∀ text ∈ f.pool.strings, SmallText text
  multinames : ∀ info ∈ f.pool.multinames, info.parameters = []
  methods : ∀ info ∈ f.methods, info.paramTypes = [] ∧ info.options = []
  metadata : f.metadata = []
  instances : ∀ info ∈ f.instances, info.interfaces = [] ∧ Untagged info.traits
  classes : ∀ info ∈ f.classes, Untagged info.traits
  scripts : ∀ info ∈ f.scripts, Untagged info.traits
  bodies : ∀ body ∈ f.bodies, body.code = Builder.emptyCode ∧ body.exceptions = [] ∧ Untagged body.traits

/-- What a block can hold of each. -/
def capacity : Nat × Nat × Nat × Nat := (1073741822, 1073741822, 1073741822, 1073741822)

/-- A light block has small sizes if there is room for its load. -/
theorem Light.sized {f : File} (h : f.Light) (room : f.load ≤ capacity) : f.Sized := by
  obtain ⟨strings, spaces, names, others⟩ := room
  obtain ⟨ints, uints, doubles, spaceSets⟩ := h.constants
  have few {α : Type} {items : List α} (none : items = []) : Small items.length :=
    none ▸ show Small 0 by decide
  simp only [load, capacity] at strings spaces names others
  constructor
  case tables =>
    intro table
    cases table <;> simp only [size, ints, uints, doubles, spaceSets, h.metadata, Small,
      List.length_nil] <;> omega
  case scripts | bodies =>
    unfold Small
    omega
  case strings => exact h.strings
  case spaceSets => simp [spaceSets]
  case multinames => exact fun info listed => few (h.multinames info listed)
  case methods => exact fun info listed => (h.methods info listed).imp few few
  case metadata => simp [h.metadata]
  case interfaces => exact fun info listed => few (h.instances info listed).1
  case traits =>
    have untagged (traits : List TraitInfo) (listed : traits ∈ f.traitLists) : Untagged traits := by
      simp only [traitLists, List.mem_append, List.mem_map] at listed
      rcases listed with ((⟨info, held, rfl⟩ | ⟨info, held, rfl⟩) | ⟨info, held, rfl⟩) | ⟨body, held, rfl⟩
      · exact (h.instances info held).2
      · exact h.classes info held
      · exact h.scripts info held
      · exact (h.bodies body held).2.2
    exact fun traits listed => ⟨(untagged traits listed).1, fun t member =>
      few ((untagged traits listed).2 t member)⟩
  case code =>
    intro body listed
    obtain ⟨code, exceptions, -⟩ := h.bodies body listed
    exact ⟨code ▸ by decide, few exceptions⟩

end File

namespace Builder

variable {α β : Type}

/-- There is one entry more at most. -/
theorem enter_adds [DecidableEq α] {valid : α → Prop} {items : List α} {item : α} (h : ∀ a ∈ items, valid a)
    (new : valid item) : (∀ a ∈ (enter items item).2, valid a) ∧
    (enter items item).2.length ≤ items.length + 1 := by
  unfold enter
  split
  next => exact ⟨h, Nat.le_succ _⟩
  next => exact ⟨List.forall_mem_append.2 ⟨h, List.forall_mem_singleton.2 new⟩, List.length_append.le⟩

/-! ### Steps with a cost -/

/-- The step leaves a light block light, adds no more than the cost, and gives a result with the property. -/
def Fits (cost : Nat × Nat × Nat × Nat) (step : Builder α) (P : α → Prop) : Prop :=
  ∀ f : File, f.Light → (step.run f).2.Light ∧ (step.run f).2.load ≤ f.load + cost ∧ P (step.run f).1

variable {c d : Nat × Nat × Nat × Nat} {P : α → Prop} {Q : β → Prop}

theorem Fits.pure {a : α} (h : P a) : Fits (0, 0, 0, 0) (Pure.pure a) P := fun _ light => ⟨light, le_rfl, h⟩

/-- A step may be said to cost more than it does. -/
theorem Fits.mono {step : Builder α} (h : Fits c step P) (less : c ≤ d) : Fits d step P := by
  intro f light
  obtain ⟨after, load, holds⟩ := h f light
  exact ⟨after, load.trans (add_le_add_right less _), holds⟩

/-- The costs of two steps add up. -/
theorem Fits.bind {step : Builder α} {next : α → Builder β} (h : Fits c step P)
    (rest : ∀ a, P a → Fits d (next a) Q) : Fits (c + d) (step >>= next) Q := by
  intro f light
  obtain ⟨between, load, holds⟩ := h f light
  obtain ⟨after, load', holds'⟩ := rest _ holds _ between
  rw [← add_assoc]
  exact ⟨after, load'.trans (add_le_add_left load _), holds'⟩

theorem Fits.mapM {γ : Type} {step : γ → Builder α} {items : List γ}
    (h : ∀ item ∈ items, Fits c (step item) P) :
    Fits (items.length • c) (items.mapM step) fun results => results.length = items.length ∧
      ∀ a ∈ results, P a := by
  induction items with
  | nil =>
    rw [List.mapM_nil, List.length_nil, zero_nsmul]
    exact Fits.pure ⟨rfl, fun a member => absurd member List.not_mem_nil⟩
  | cons item rest ih =>
    rw [List.mapM_cons, List.length_cons, succ_nsmul']
    apply Fits.bind (h item (.head _))
    intro a first
    have later := ih fun other member => h other (.tail _ member)
    rw [← add_zero (rest.length • c)]
    apply Fits.bind later
    intro results along
    apply Fits.pure
    exact ⟨congrArg (· + 1) along.1, List.forall_mem_cons.2 ⟨first, along.2⟩⟩

/-! ### Tables -/

/-- The empty text takes no entry. -/
def textCost (text : String) : Nat := if text.isEmpty then 0 else 1

theorem textCost_le (text : String) : textCost text ≤ 1 := by
  unfold textCost
  split <;> omega

theorem fits_string {text : String} (small : SmallText text) :
    Fits (textCost text, 0, 0, 0) (string text) fun _ => True := by
  unfold string textCost
  split
  next => exact Fits.pure trivial
  next =>
    intro f light
    obtain ⟨strings, length⟩ := enter_adds light.strings small
    exact ⟨{ light with strings := strings }, ⟨length, le_rfl, le_rfl, le_rfl⟩, trivial⟩

theorem fits_emptyText : Fits (1, 0, 0, 0) emptyText fun _ => True := by
  intro f light
  have strings :=
    List.forall_mem_append.2 ⟨light.strings, List.forall_mem_singleton.2 (show SmallText "" by decide)⟩
  exact ⟨{ light with strings := strings }, ⟨List.length_append.le, le_rfl, le_rfl, le_rfl⟩, trivial⟩

theorem fits_space (kind : NamespaceKind) {uri : String} (small : SmallText uri) :
    Fits (textCost uri, 1, 0, 0) (space kind uri) fun _ => True := by
  apply Fits.bind (d := (0, 1, 0, 0)) (fits_string small)
  intro name _ f light
  have length : (enter f.pool.spaces ⟨kind, name⟩).2.length ≤ f.pool.spaces.length + 1 :=
    (enter_adds (fun _ _ => trivial) trivial).2
  exact ⟨{ light with }, ⟨le_rfl, length, le_rfl, le_rfl⟩, trivial⟩

theorem fits_qname (kind : NamespaceKind) {uri name : String} (space : SmallText uri)
    (text : SmallText name) :
    Fits (textCost uri + textCost name, 1, 1, 0) (qname kind uri name) fun _ => True := by
  apply Fits.bind (d := (textCost name, 0, 1, 0)) (fits_space kind space)
  intro spaceIndex _
  apply Fits.bind (d := (0, 0, 1, 0)) (fits_string text)
  intro nameIndex _ f light
  have plain : (MultinameInfo.qname false spaceIndex nameIndex).parameters = [] := rfl
  obtain ⟨multinames, length⟩ := enter_adds light.multinames plain
  exact ⟨{ light with multinames := multinames }, ⟨le_rfl, le_rfl, length, le_rfl⟩, trivial⟩

/-- A name with its namespace costs two texts at most. -/
theorem fits_name {q : QName} (space : SmallText q.space) (name : SmallText q.name) :
    Fits (2, 1, 1, 0) (qname .packageSpace q.space q.name) fun _ => True := by
  apply (fits_qname .packageSpace space name).mono
  exact ⟨add_le_add (textCost_le _) (textCost_le _), le_rfl, le_rfl, le_rfl⟩

/-! ### Constants that are texts -/

/-- The public constant of a text. -/
def textConstant (entry : String × String) : MemberSpec :=
  .slot entry.1 .publicMember (some "String") (some (.string entry.2)) true false []

theorem fits_text {value : String} (small : SmallText value) :
    Fits (1, 0, 0, 0) (literal (.string value)) fun _ => True := by
  simp only [literal]
  split
  next => exact Fits.bind fits_emptyText fun _ _ => Fits.pure trivial
  next =>
    have text : Fits (1, 0, 0, 0) (string value) fun _ => True :=
      (fits_string small).mono ⟨textCost_le value, le_rfl, le_rfl, le_rfl⟩
    exact Fits.bind text fun _ _ => Fits.pure trivial

theorem fits_textConstant (owner : QName) {entry : String × String} (key : SmallText entry.1)
    (value : SmallText entry.2) :
    Fits (3, 2, 2, 0) (memberTrait owner (textConstant entry)) fun t => t.2.metadata = [] := by
  have name : Fits (1, 1, 1, 0) (memberName owner .publicMember entry.1) fun _ => True := by
    apply (fits_qname .packageSpace (by decide) key).mono
    exact ⟨(Nat.zero_add _).trans_le (textCost_le _), le_rfl, le_rfl, le_rfl⟩
  have type : Fits (1, 1, 1, 0) (memberType (some "String")) fun _ => True := by
    have space : SmallText "" := by decide
    exact fits_qname .packageSpace space (show SmallText "String" by decide)
  simp only [textConstant, memberTrait, Option.mapM_some, List.mapM_nil, pure_bind, bind_map_left]
  apply Fits.bind (d := (2, 1, 1, 0)) name
  intro _ _
  apply Fits.bind (d := (1, 0, 0, 0)) type
  intro _ _
  exact Fits.bind (d := 0) (fits_text value) fun _ _ => Fits.pure rfl

/-! ### Classes -/

theorem forall_mem_concat {valid : α → Prop} {items : List α} {item : α} (h : ∀ a ∈ items, valid a)
    (new : valid item) : ∀ a ∈ items ++ [item], valid a :=
  List.forall_mem_append.2 ⟨h, List.forall_mem_singleton.2 new⟩

/-- Every class has such a method for either side and for its script. -/
theorem fits_methodInfo : Fits (0, 0, 0, 2) (methodInfo "" [] none) fun _ => True := by
  intro f light
  refine ⟨{ light with
    methods := forall_mem_concat light.methods ⟨rfl, rfl⟩
    bodies := forall_mem_concat light.bodies ⟨rfl, rfl, show Untagged [] by decide⟩ },
    ⟨le_rfl, le_rfl, le_rfl, ?_⟩, trivial⟩
  change (f.methods ++ [_]).length + (f.bodies ++ [_]).length + f.instances.length + f.scripts.length ≤
    f.methods.length + f.bodies.length + f.instances.length + f.scripts.length + 2
  simp only [List.length_append, List.length_singleton]
  omega

/-- The two sides of a class. -/
theorem fits_sides {object : InstanceInfo} {scope : ScopeInfo} (interfaces : object.interfaces = [])
    (objectTraits : Untagged object.traits) (scopeTraits : Untagged scope.traits) :
    Fits (0, 0, 0, 1) (appendSides object scope) fun _ => True := by
  intro f light
  refine ⟨{ light with
    instances := forall_mem_concat light.instances ⟨interfaces, objectTraits⟩
    classes := forall_mem_concat light.classes scopeTraits }, ⟨le_rfl, le_rfl, le_rfl, ?_⟩, trivial⟩
  change f.methods.length + f.bodies.length + (f.instances ++ [object]).length + f.scripts.length ≤
    f.methods.length + f.bodies.length + f.instances.length + f.scripts.length + 1
  rw [List.length_append, List.length_singleton]
  omega

/-- The script that defines the class added last. -/
theorem fits_script (name init : Nat) : Fits (0, 0, 0, 1) (appendScript name init []) fun _ => True := by
  intro f light
  have traits : Untagged [⟨name, tagFlag [], .classRef 1 (f.classes.length - 1), []⟩] :=
    ⟨Nat.one_lt_succ_succ _, List.forall_mem_singleton.2 rfl⟩
  refine ⟨{ light with scripts := forall_mem_concat light.scripts traits },
    ⟨le_rfl, le_rfl, le_rfl, ?_⟩, trivial⟩
  change f.methods.length + f.bodies.length + f.instances.length + (f.scripts ++ [_]).length ≤
    f.methods.length + f.bodies.length + f.instances.length + f.scripts.length + 1
  rw [List.length_append, List.length_singleton]
  omega

end Builder

/-- A class whose members are the constants of the entries.  Its names and its texts can be written. -/
structure ClassSpec.Textual (spec : ClassSpec) (entries : List (String × String)) : Prop where
  space : SmallText spec.name.space
  name : SmallText spec.name.name
  text : SmallText spec.name.text
  superName : ∃ q : QName, spec.superName = some (.qualified q) ∧ SmallText q.space ∧ SmallText q.name
  interfaces : spec.interfaces = []
  members : spec.members = entries.map Builder.textConstant
  metadata : spec.metadata = []
  texts : Counted (fun entry => SmallText entry.1 ∧ SmallText entry.2) entries

namespace Builder

theorem untagged_side {traits : List (Bool × TraitInfo)} (h : Counted (fun t => t.2.metadata = []) traits)
    (isStatic : Bool) : Untagged (side isStatic traits) := by
  apply And.intro
  · rw [side, List.length_map]
    exact (List.length_filter_le ..).trans_lt h.1
  · intro info member
    obtain ⟨t, kept, rfl⟩ := List.mem_map.1 member
    exact h.2 t (List.mem_of_mem_filter kept)

theorem fits_addClass {spec : ClassSpec} {entries : List (String × String)}
    (textual : spec.Textual entries) :
    Fits ((5, 3, 2, 8) + entries.length • (3, 2, 2, 0)) (addClass spec) fun _ => True := by
  obtain ⟨q, superName, superSpace, superText⟩ := textual.superName
  rw [addClass, superName, textual.interfaces, textual.metadata, textual.members]
  simp only [Option.elim_some, List.mapM_nil, pure_bind]
  have protects : Fits (1, 1, 0, 0) (space .protectedSpace spec.name.text) fun _ => True := by
    apply (fits_space .protectedSpace textual.text).mono
    exact ⟨textCost_le _, le_rfl, le_rfl, le_rfl⟩
  have traits : Fits ((entries.map textConstant).length • (3, 2, 2, 0))
      ((entries.map textConstant).mapM (memberTrait spec.name)) fun traits =>
        traits.length = (entries.map textConstant).length ∧ ∀ t ∈ traits, t.2.metadata = [] := by
    apply Fits.mapM
    intro m member
    obtain ⟨entry, listed, rfl⟩ := List.mem_map.1 member
    obtain ⟨key, value⟩ := textual.texts.2 entry listed
    exact fits_textConstant spec.name key value
  rw [List.length_map] at traits
  apply Fits.mono
  · apply Fits.bind (fits_name textual.space textual.name)
    intro name _
    apply Fits.bind (fits_name superSpace superText)
    intro superIndex _
    apply Fits.bind protects
    intro protectedIndex _
    apply Fits.bind fits_methodInfo
    intro instanceInit _
    apply Fits.bind fits_methodInfo
    intro classInit _
    apply Fits.bind traits
    intro traits along
    have untagged := untagged_side ⟨along.1 ▸ textual.texts.1, along.2⟩
    apply Fits.bind (fits_sides rfl (untagged false) (untagged true))
    intro _ _
    exact Fits.bind fits_methodInfo fun scriptInit _ => fits_script name scriptInit
  · generalize entries.length • ((3, 2, 2, 0) : Nat × Nat × Nat × Nat) = rest
    obtain ⟨strings, spaces, names, others⟩ := rest
    simp only [Prod.mk_add_mk, Prod.mk_le_mk]
    omega

end Builder

/-- If the tables have room for the class, the block that holds it alone can be written. -/
theorem ClassSpec.Textual.wellFormed {spec : ClassSpec} {entries : List (String × String)}
    (textual : spec.Textual entries) (room : 3 * entries.length + 5 ≤ 1073741822) :
    (File.ofClasses [spec]).WellFormed := by
  have empty : File.Light {} := by constructor <;> simp
  obtain ⟨light, load, -⟩ := Builder.fits_addClass textual {} empty
  have within : File.load {} + ((5, 3, 2, 8) + entries.length • (3, 2, 2, 0)) ≤ File.capacity := by
    simp only [File.load, File.capacity, Prod.smul_mk, Prod.mk_add_mk, Prod.mk_le_mk, smul_eq_mul,
      List.length_nil]
    omega
  have alone : [spec].forM Builder.addClass = Builder.addClass spec := bind_pure_unit
  have sound : (File.ofClasses [spec]).Sound := (Draft.ofCalls_eq [.addClass spec]).2.2
  rw [File.ofClasses, alone] at sound ⊢
  exact sound.wellFormed (light.sized (load.trans within))

end AbcBuild.Abc
