/-
Module: AbcBuild.Proofs.Visibility
Purpose: Which members of a class answer a question that is restricted to one namespace.  Namespaces are told
  apart by one word each, which for some is their kind and for the others their URI.
Main exports: Abc.NamespaceKind.word?, Abc.ConstantPool.NameIn, Resolve.Answers, Program.restricted_members
-/
import AbcBuild.Class.Hierarchy
import AbcBuild.Proofs.Folding
import AbcBuild.Proofs.Members
import AbcBuild.Proofs.Rendering

namespace AbcBuild

open Abc

namespace Abc

/-- The word for all namespaces of the kind.  The other kinds are open: there each namespace goes by its
    URI. -/
def NamespaceKind.word? : NamespaceKind → Option String
  | .privateSpace => some "private"
  | .protectedSpace => some "protected"
  | .staticProtectedSpace => some "protected"
  | .internalSpace => some "internal"
  | _ => none

theorem NamespaceKind.lookupKey_eq_iff {kind : NamespaceKind} {uri word : String} :
    kind.lookupKey uri = word ↔ kind.word? = some word ∨ kind.word? = none ∧ uri = word := by
  cases kind <;> simp [lookupKey, word?]

/-- The entry names something in a namespace: in the one that qualifies it, or in the first of its set. -/
inductive ConstantPool.NameIn (pool : ConstantPool) (index : Nat) :
    NamespaceKind → String → String → Prop where
  | qualified {attr : Bool} {space name : Nat} {info : NamespaceInfo} {uri text : String}
      (here : pool.multiname index = .ok (.qname attr space name)) (spaced : pool.space space = .ok info)
      (located : pool.string info.name = .ok uri) (named : pool.string name = .ok text) :
      NameIn pool index info.kind uri text
  | first {attr : Bool} {name set first : Nat} {rest : List Nat} {info : NamespaceInfo} {uri text : String}
      (here : pool.multiname index = .ok (.multiname attr name set))
        (listed : pool.spaceSet set = .ok (first :: rest))
      (spaced : pool.space first = .ok info) (located : pool.string info.name = .ok uri)
      (named : pool.string name = .ok text) : NameIn pool index info.kind uri text

/-- The trait is a data slot. -/
def TraitInfo.isSlot (t : TraitInfo) : Bool :=
  match t.data with
  | .slot .. => true
  | _ => false

/-- The trait is a method, or an accessor, of the kind. -/
def TraitInfo.isMethod (kind : MethodKind) (t : TraitInfo) : Bool :=
  match t.data with
  | .method k .. => k = kind
  | _ => false

end Abc

namespace Resolve

open Abc.ConstantPool (NameIn)

variable {pool : ConstantPool} {file : File} {index : Nat} {word : String}

theorem memberName_of_nameIn {kind : NamespaceKind} {uri text : String}
    (h : NameIn pool index kind uri text) :
    memberName pool index = .ok ⟨kind.lookupKey uri, uri, text⟩ := by
  cases h with
  | qualified here spaced located named =>
    simp [memberName, here, spaced, located, named, bind, Except.bind, pure, Except.pure]
  | first here listed spaced located named =>
    simp [memberName, here, listed, spaced, located, named, bind, Except.bind, pure, Except.pure]

/-- A name that stands in no namespace has no word. -/
theorem nameIn_of_memberName {m : MemberName} (read : memberName pool index = .ok m) :
    m.space = "" ∨ ∃ kind, NameIn pool index kind m.uri m.name ∧ m.space = kind.lookupKey m.uri := by
  obtain ⟨entry, here, read⟩ := bind_eq_ok.1 read
  cases entry with
  | qname attr space name =>
    obtain ⟨info, spaced, read⟩ := bind_eq_ok.1 read
    obtain ⟨uri, located, read⟩ := bind_eq_ok.1 read
    obtain ⟨text, named, read⟩ := bind_eq_ok.1 read
    cases read
    exact .inr ⟨info.kind, .qualified here spaced located named, rfl⟩
  | multiname attr name set =>
    obtain ⟨spaces, listed, read⟩ := bind_eq_ok.1 read
    cases spaces with
    | nil =>
      have read : (pool.string name >>= fun text => pure (⟨"", "", text⟩ : MemberName)) = .ok m := read
      obtain ⟨text, -, read⟩ := bind_eq_ok.1 read
      cases read
      exact .inl rfl
    | cons first rest =>
      have read : (do
          let info ← pool.space first
          let uri ← pool.string info.name
          let text ← pool.string name
          return (⟨info.kind.lookupKey uri, uri, text⟩ : MemberName)) = .ok m := read
      obtain ⟨info, spaced, read⟩ := bind_eq_ok.1 read
      obtain ⟨uri, located, read⟩ := bind_eq_ok.1 read
      obtain ⟨text, named, read⟩ := bind_eq_ok.1 read
      cases read
      exact .inr ⟨info.kind, .first here listed spaced located named, rfl⟩
  | _ =>
    cases read
    exact .inl rfl

/-- The trait has the name, and its namespace goes by the word: it is of the kind that the word stands for,
    or it is open and has the word for its URI. -/
def Answers (pool : ConstantPool) (word name : String) (t : TraitInfo) : Prop :=
  ∃ kind uri, NameIn pool t.name kind uri name ∧ (kind.word? = some word ∨ kind.word? = none ∧ uri = word)

theorem answers_iff {t : TraitInfo} {d : TraitDef} (read : traitDef file t = .ok d) (given : word ≠ "")
    (name : String) :
    Answers file.pool word name t ↔ d.name = name ∧ d.space = word := by
  obtain ⟨m, named, read⟩ := bind_eq_ok.1 read
  obtain ⟨_, -, read⟩ := bind_eq_ok.1 read
  obtain ⟨_, -, read⟩ := bind_eq_ok.1 read
  cases read
  simp only [Answers, ← NamespaceKind.lookupKey_eq_iff]
  constructor
  · rintro ⟨kind, uri, inSpace, rfl⟩
    cases named.symm.trans (memberName_of_nameIn inSpace)
    exact ⟨rfl, rfl⟩
  · rintro ⟨rfl, rfl⟩
    rcases nameIn_of_memberName named with none | ⟨kind, inSpace, same⟩
    · exact absurd none given
    · exact ⟨kind, m.uri, inSpace, same.symm⟩

end Resolve

/-! ### Members in order -/

/-- The item at the place of the first trait that answers. -/
def FirstAnswer {α : Type} (answers : TraitInfo → Prop) (traits : List TraitInfo) (items : List α)
    (item : α) : Prop :=
  ∃ (place : Nat) (t : TraitInfo), traits[place]? = some t ∧ items[place]? = some item ∧ answers t ∧
    ∀ earlier < place, ∀ t', traits[earlier]? = some t' → ¬answers t'

theorem find?_iff_firstAnswer {α : Type} {answers : TraitInfo → Prop} {traits : List TraitInfo}
    {items : List α} {test : α → Bool}
    (along : List.Forall₂ (fun t item => answers t ↔ test item = true) traits items) {item : α} :
    items.find? test = some item ↔ FirstAnswer answers traits items item := by
  have length := along.length_eq
  have same (place : Nat) (bound : place < traits.length) (bound' : place < items.length) :
      answers traits[place] ↔ test items[place] = true := (List.forall₂_iff_get.1 along).2 place bound bound'
  rw [List.find?_eq_some_iff_getElem]
  constructor
  · rintro ⟨passes, place, bound, rfl, earlier⟩
    have bound' : place < traits.length := length ▸ bound
    refine ⟨place, traits[place], List.getElem?_eq_getElem bound', List.getElem?_eq_getElem bound,
      (same place bound' bound).2 passes, fun before less t' there yes => ?_⟩
    obtain ⟨within, rfl⟩ := List.getElem?_eq_some_iff.1 there
    have fails := earlier before less
    rw [(same before within (less.trans bound)).1 yes] at fails
    cases fails
  · rintro ⟨place, t, there, here, yes, earlier⟩
    obtain ⟨bound', rfl⟩ := List.getElem?_eq_some_iff.1 there
    obtain ⟨bound, rfl⟩ := List.getElem?_eq_some_iff.1 here
    refine ⟨(same place bound' bound).1 yes, place, bound, rfl, fun before less => ?_⟩
    have within : before < traits.length := less.trans bound'
    rw [Bool.not_eq_true', Bool.eq_false_iff]
    intro passes
    exact earlier before less _ (List.getElem?_eq_getElem within)
      ((same before within (less.trans bound)).2 passes)

theorem Hierarchy.pick_own {α : Type} (view : View) {store : ClassStore} {id : ClassId} {d : ClassDescriptor}
    (held : store.descriptor? id = some d) (ask : ClassDescriptor → Option α) :
    (pick view store id false ask).1 = ask d := by
  rw [pick, held, Option.bind_some]
  cases ask d <;> rfl

namespace Program

open Resolve Publication

variable {file : File} {p : Program} {place : Nat} {info : InstanceInfo}

/-- A class answers a question for one of its members that is restricted to a namespace with the first member
    of the name whose namespace goes by the word that was asked for. -/
theorem restricted_members (read : ofFile file = .ok p) (there : file.instances[place]? = some info)
    (frame : Frame) (values : Table TraitRef ConstantValue) (source : String) (r : Registry)
    {d : ClassDescriptor} (shown : ((descriptors p frame values source).run r).1[place]? = some d)
    (view : Hierarchy.View) {store : ClassStore} {id : ClassId} (held : store.descriptor? id = some d)
    {word : String} (given : word ≠ "") (name : String) :
    (∀ v, (Hierarchy.inheritedVariable? view store id [word] name false).1 = some v ↔
        FirstAnswer (Answers file.pool word name)
          ((traitsOf file place info).filter TraitInfo.isSlot) d.vars v) ∧
      ∀ kind m, (Hierarchy.inheritedMethod? view store id kind [word] name false).1 = some m ↔
        FirstAnswer (Answers file.pool word name)
          ((traitsOf file place info).filter (TraitInfo.isMethod kind)) (d.ofKind kind) m := by
  obtain ⟨c, here, along⟩ := (traits_resolved read).2 place info there
  have drawn : d = Publication.drawn frame values source (place, c) r.answer := by
    rw [(tells_descriptors p frame values source r).1, indexed, List.getElem?_map, List.getElem?_map,
      List.getElem?_zipIdx, here] at shown
    exact (Option.some.inj shown).symm.trans (by rw [Nat.zero_add]; rfl)
  rw [← snd_members place c, List.forall₂_map_right_iff] at along
  constructor
  · intro v
    rw [Hierarchy.inheritedVariable?, Hierarchy.pick_own view held, ClassDescriptor.variableNamed?]
    refine find?_iff_firstAnswer ?_
    rw [drawn]
    refine forall₂_filter_filterMap along fun t m read => ?_
    have asked := answers_iff read given name
    have body := bodyOf_traitDef read
    unfold TraitInfo.isSlot Pen.data?
    generalize t.data = data, m.2.body = made at body
    cases body with
    | slot => exact ⟨_, rfl, by simp [asked]⟩
    | method => rfl
    | classRef => rfl
    | function => rfl
  · intro kind v
    rw [Hierarchy.inheritedMethod?, Hierarchy.pick_own view held, ClassDescriptor.methodNamed?,
      ClassDescriptor.findMethod]
    refine find?_iff_firstAnswer ?_
    rw [drawn, Publication.drawn, Pen.ofKind_draw, Pen.methods, List.filter_filterMap]
    refine forall₂_filter_filterMap along fun t m read => ?_
    have asked := answers_iff read given name
    have body := bodyOf_traitDef read
    unfold TraitInfo.isMethod Pen.method?
    generalize t.data = data, m.2.body = made at body
    cases body with
    | slot => rfl
    | @method k =>
      by_cases here : k = kind
      · simp [here, asked, Option.filter_some]
      · simp [here, Option.filter_some]
    | classRef => rfl
    | function => rfl

/-- The instance side of a class with two members. -/
def secretive : InstanceInfo :=
  ⟨1, 0, 0, none, [], 0, [⟨2, 0, .slot false 0 0 none, []⟩, ⟨3, 0, .slot true 0 0 none, []⟩]⟩

/-- A block with that class.  Both members are called `x`: the first is in a package that has the name
    `private`, and the second is private. -/
def secrets : File where
  pool :=
    { strings := ["A", "private", "x"]
      spaces := [⟨.packageSpace, 0⟩, ⟨.packageSpace, 2⟩, ⟨.privateSpace, 0⟩]
      multinames := [.qname false 1 1, .qname false 2 3, .qname false 3 3] }
  instances := [secretive]
  classes := [⟨0, []⟩]
  scripts := [⟨0, [⟨1, 0, .classRef 0 0, []⟩]⟩]

/-- The descriptor of the class. -/
def secretClass : ClassDescriptor where
  name := "A"
  isDynamic := true
  vars :=
    [⟨"x", "private", none, false, false, none, [], "A"⟩, ⟨"x", "private", none, true, false, none, [], "A"⟩]
  source := some "a.abc"

theorem secrets_shown : ∃ p, ofFile secrets = .ok p ∧
    ((descriptors p {} .empty "a.abc").run default).1[0]? = some secretClass :=
  ⟨_, rfl, rfl⟩

theorem restricted_members_secrets :
    FirstAnswer (Answers secrets.pool "private" "x") ((traitsOf secrets 0 secretive).filter TraitInfo.isSlot)
      secretClass.vars ⟨"x", "private", none, false, false, none, [], "A"⟩ := by
  obtain ⟨p, read, shown⟩ := secrets_shown
  have held : (ClassStore.add {} secretClass).2.descriptor? 0 = some secretClass := rfl
  exact ((restricted_members read rfl {} .empty "a.abc" default shown ⟨default, fun _ => true⟩ held
    (by decide) "x").1 _).1 rfl

/-- A question for private members is answered with one of a package. -/
theorem open_member_for_private : (∃ p, ofFile secrets = .ok p ∧
      ((descriptors p {} .empty "a.abc").run default).1[0]? = some secretClass) ∧
    (Hierarchy.inheritedVariable? ⟨default, fun _ => true⟩ (ClassStore.add {} secretClass).2 0
      ["private"] "x" false).1 = secretClass.vars[0]? ∧
    secretive.traits[0]?.map TraitInfo.name = some 2 ∧ secrets.pool.NameIn 2 .packageSpace "private" "x" :=
  ⟨secrets_shown, rfl, rfl, @ConstantPool.NameIn.qualified _ _ false 2 3 ⟨.packageSpace, 2⟩ _ _
    rfl rfl rfl rfl⟩

end Program

end AbcBuild
