/-
Module: AbcBuild.Proofs.Scope
Purpose: How a class is written down.  Besides the class, its descriptor depends on what the unit knew when
  it bound its supertypes and its slots, and on what the sources of the build define; on nothing else.
Main exports: Name.readings, Name.boundIn, Scope, ParseTree.shown?
-/
import AbcBuild.Frontend.Bundle
import AbcBuild.Proofs.Rendering
import Mathlib.Data.List.Forall2

namespace AbcBuild

/-! ### What a reference may be written as -/

/-- The texts that a reference may be written as. -/
def Name.readings (n : Name) : List String :=
  if n.candidates.isEmpty then [n.localName] else n.candidates.map QName.text

/-- A value taken over into a type. -/
def Constant.inType (declared : QName) (value : ConstantValue) : ConstantValue :=
  if declared.isUnnamed then (Constant.convert? declared.name value).getD value else value

/-- The values that a value may become in a declared type. -/
def Constant.readings (value : ConstantValue) : Option Name → List ConstantValue
  | none => [value]
  | some n => if n.candidates.isEmpty then [value] else n.candidates.map fun q => inType q value

/-- The reference has one candidate at most. -/
def Name.isSettled (n : Name) : Bool := n.candidates.length ≤ 1

/-- A settled name has one candidate at most. -/
theorem Name.candidates_of_isSettled {n : Name} (h : n.isSettled = true) :
    n.candidates = [] ∨ ∃ q, n.candidates = [q] := by
  cases found : n.candidates with
  | nil => exact Or.inl rfl
  | cons q rest =>
    have only : rest = [] := by simpa [Name.isSettled, found] using h
    exact Or.inr ⟨q, by rw [only]⟩

/-- So there is one way to write it. -/
theorem Name.readings_eq {n : Name} (h : n.isSettled = true) : ∃ text, n.readings = [text] := by
  unfold Name.readings
  rcases Name.candidates_of_isSettled h with empty | ⟨q, only⟩
  · exact ⟨n.localName, by rw [empty]; rfl⟩
  · exact ⟨q.text, by rw [only]; rfl⟩

/-- A constant whose type is settled can be written in one way. -/
theorem Constant.readings_eq {n : Option Name} (fixed : ∀ m ∈ n, m.isSettled = true)
    (value : ConstantValue) :
    ∃ only, Constant.readings value n = [only] := by
  cases n with
  | none => exact ⟨value, rfl⟩
  | some n =>
    simp only [Constant.readings]
    rcases Name.candidates_of_isSettled (fixed n rfl) with empty | ⟨q, only⟩
    · exact ⟨value, by rw [empty]; rfl⟩
    · exact ⟨inType q value, by rw [only]; rfl⟩

/-! ### What a unit knows -/

/-- The first candidate that is known, else the first builtin one. -/
def Name.boundIn (known : QName → Bool) (n : Name) : Option QName := (n.candidates.find? known).or n.builtin?

/-- A name is only ever bound to one of its candidates. -/
theorem Name.mem_candidates_of_boundIn {known : QName → Bool} {n : Name} {q : QName}
    (h : n.boundIn known = some q) :
    q ∈ n.candidates := by
  rcases Option.or_eq_some_iff.1 h with found | ⟨-, builtin⟩
  · exact List.mem_of_find?_eq_some found
  · exact List.mem_of_find?_eq_some builtin

theorem Name.text_mem_readings {n : Name} {q : QName} (h : q ∈ n.candidates) : q.text ∈ n.readings := by
  unfold Name.readings
  rw [if_neg fun empty => List.not_mem_nil (List.isEmpty_iff.1 empty ▸ h)]
  exact List.mem_map_of_mem h

/-- What a unit knows when it writes down its classes. -/
structure Scope where
  /-- What its frame knew when the supertypes were bound. -/
  early : QName → Bool
  /-- What its frame knows since the types of slots are bound. -/
  late : QName → Bool
  /-- What the sources of the build define. -/
  defined : QName → Bool
  /-- A frame forgets nothing. -/
  grows : ∀ q, early q = true → late q = true

namespace Scope

/-- An interface, a parameter type or a return type, as it is written. -/
def text (s : Scope) (n : Name) : String :=
  (((n.candidates.find? s.late).or (n.candidates.find? s.defined)).or n.candidates.head?).elim
    n.localName QName.text

/-- A supertype, as it is written. -/
def superText (s : Scope) (n : Name) : String := (n.boundIn s.early).elim (s.text n) QName.text

/-- The type of a data slot, as it is written. -/
def slotText (s : Scope) (n : Name) : String := (n.boundIn s.late).elim (s.text n) QName.text

/-- The value of a data slot, in its declared type. -/
def value (s : Scope) (declared : Option Name) (v : ConstantValue) : ConstantValue :=
  (declared.bind (Name.boundIn s.late)).elim v fun q => Constant.inType q v

/-- However a scope writes a name, it is one of its readings. -/
theorem text_mem_readings (s : Scope) (n : Name) : s.text n ∈ n.readings := by
  unfold text
  cases found : ((n.candidates.find? s.late).or (n.candidates.find? s.defined)).or n.candidates.head? with
  | none =>
    have empty : n.candidates = [] := List.head?_eq_none_iff.1 (Option.or_eq_none_iff.1 found).2
    rw [Name.readings, empty]
    exact List.mem_singleton.2 rfl
  | some q =>
    refine Name.text_mem_readings ?_
    rcases Option.or_eq_some_iff.1 found with either | ⟨-, first⟩
    · rcases Option.or_eq_some_iff.1 either with known | ⟨-, defined⟩
      · exact List.mem_of_find?_eq_some known
      · exact List.mem_of_find?_eq_some defined
    · exact List.mem_of_mem_head? first

theorem elim_boundIn_mem_readings (s : Scope) (known : QName → Bool) (n : Name) :
    (n.boundIn known).elim (s.text n) QName.text ∈ n.readings := by
  cases bound : n.boundIn known with
  | none => exact s.text_mem_readings n
  | some q => exact Name.text_mem_readings (Name.mem_candidates_of_boundIn bound)

end Scope

namespace Constant

/-- Only builtin types take over values. -/
theorem inType_of_not_builtin {q : QName} (h : q.isBuiltin = false) (value : ConstantValue) :
    inType q value = value := by
  unfold inType
  split
  next unnamed =>
    have other (name : String) (known : name ∈ builtinTypes) : q.name ≠ name := by
      rintro rfl
      simp [QName.isBuiltin, unnamed, known] at h
    have none : convert? q.name value = none := by
      cases value with
      | int v => simp [convert?, other "uint" (by decide), other "Number" (by decide)]
      | uint v => simp [convert?, other "int" (by decide), other "Number" (by decide)]
      | _ => rfl
    rw [none, Option.getD_none]
  next => rfl

/-- A value in the type that is bound is one of those that it may become. -/
theorem value_mem_readings (s : Scope) (declared : Option Name) (value : ConstantValue) :
    s.value declared value ∈ readings value declared := by
  unfold Scope.value
  cases declared with
  | none => exact List.mem_singleton.2 rfl
  | some n =>
    simp only [readings]
    cases bound : n.boundIn s.late with
    | some q =>
      have candidate := Name.mem_candidates_of_boundIn bound
      simp only [Option.bind_some, bound, Option.elim_some]
      rw [if_neg fun empty => List.not_mem_nil (List.isEmpty_iff.1 empty ▸ candidate)]
      exact List.mem_map.2 ⟨q, candidate, rfl⟩
    | none =>
      simp only [Option.bind_some, bound, Option.elim_none]
      cases found : n.candidates with
      | nil => exact List.mem_singleton.2 rfl
      | cons q rest =>
        -- no candidate is builtin, so the first one leaves the value as it is
        have plain : q.isBuiltin = false := by
          have unbound := (Option.or_eq_none_iff.1 bound).2
          rw [Name.builtin?, found, List.find?_eq_none] at unbound
          exact Bool.eq_false_iff.2 (unbound q (.head _))
        exact List.mem_map.2 ⟨q, .head _, inType_of_not_builtin plain value⟩

end Constant

/-! ### Classes in a scope -/

namespace Program

def isSlot (member : TraitRef × TraitDef) : Bool :=
  match member.2.body with
  | .slot .. => true
  | _ => false

def isMethod (kind : MethodKind) (member : TraitRef × TraitDef) : Bool :=
  match member.2.body with
  | .method k .. => k = kind
  | _ => false

@[simp] theorem snd_placed (classIndex : Nat) (isStatic : Bool) (definitions : List TraitDef) :
    (placed classIndex isStatic definitions).map Prod.snd = definitions := by
  rw [placed, List.map_map]
  exact List.zipIdx_map_fst 0 definitions

@[simp] theorem snd_members (classIndex : Nat) (c : ClassDef) :
    (members classIndex c).map Prod.snd = c.traits := by
  rw [members, List.map_append, snd_placed, snd_placed]
  rfl

/-- The last class whose name is written as `name`, with its place. -/
def lastNamed? (p : Program) (name : String) : Option (Nat × ClassDef) :=
  Table.lookup name ((indexed p.classes).map fun placed => (placed.2.name.text, placed)).reverse

/-- The value that an initializer gives a slot of a declared type. -/
def start? (p : Program) (s : Scope) (declared : Option Name) (initializer : Option Abc.OptionalValue) :
    Option ConstantValue :=
  (initializer.bind fun i => (Constant.ofPool p.pool i).toOption).map (s.value declared)

/-- The pen of a scope. -/
def pen (p : Program) (s : Scope) : Publication.Pen where
  superName n := n.map s.superText
  slotType _ n := n.map s.slotText
  value _ declared initializer := p.start? s declared initializer
  type := s.text

/-- The descriptor of a class with these members, in order. -/
def describe (p : Program) (s : Scope) (source : String) (c : ClassDef)
    (shown : List (TraitRef × TraitDef)) :
    ClassDescriptor :=
  (p.pen s).draw source c shown

/-- Items that pass a test are related to what is made of those beside them. -/
theorem forall₂_filter_filterMap {α β γ : Type} {S : α → γ → Prop} {R : α → β → Prop} {test : α → Bool}
    {make : γ → Option β} {items : List α} {beside : List γ} (along : List.Forall₂ S items beside)
    (h : ∀ a c, S a c → if test a then ∃ b, make c = some b ∧ R a b else make c = none) :
    List.Forall₂ R (items.filter test) (beside.filterMap make) := by
  induction along with
  | nil => exact List.Forall₂.nil
  | cons pair _ there =>
    have here := h _ _ pair
    split at here
    next passes =>
      obtain ⟨b, made, related⟩ := here
      rw [List.filter_cons_of_pos passes, List.filterMap_cons_some made]
      exact List.Forall₂.cons related there
    next fails =>
      rw [List.filter_cons_of_neg fails, List.filterMap_cons_none here]
      exact there

theorem forall₂_filterMap {α β : Type} {R : α → β → Prop} {test : α → Bool} {make : α → Option β}
    {items : List α} (h : ∀ a ∈ items, if test a then ∃ b, make a = some b ∧ R a b else make a = none) :
    List.Forall₂ R (items.filter test) (items.filterMap make) := by
  have along : List.Forall₂ (fun a c => c = a ∧ a ∈ items) items items :=
    List.forall₂_same.2 fun _ member => ⟨rfl, member⟩
  refine forall₂_filter_filterMap along ?_
  rintro a _ ⟨rfl, member⟩
  exact h _ member

end Program

/-! ### Sources in a scope -/

/-- The descriptor of the class that a source publishes under a name: of classes of one name the last. -/
def ParseTree.shown? (s : Scope) (source name : String) : ParseTree → Option ClassDescriptor
  | .abc p =>
    (p.lastNamed? name).map fun placed => p.describe s source placed.2 (Program.members placed.1 placed.2)
  | .properties file =>
    if name = file.className.text then some (BundleFrontend.descriptorOf file source) else none

end AbcBuild
