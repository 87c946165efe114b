/-
Module: AbcBuild.Proofs.Mentions
Purpose: The types that a class mentions, each in its role, beside the texts that its descriptor gives for
  them.  A scope writes a type by its role alone, so a descriptor depends on the scope through these texts,
  and through the values of slots.
Main exports: Role, Scope.write, Program.describe_congr, Program.mem_dependencies
-/
import AbcBuild.Proofs.Scope

namespace AbcBuild

variable {member : TraitRef × TraitDef} {m : Role × Name}

/-- What a class mentions a type as. -/
inductive Role where
  | supertype
  | interface
  /-- The type of a variable or constant. -/
  | slot
  | parameter
  | result
deriving Repr, DecidableEq

/-- A type in a role, as it is written. -/
def Scope.write (s : Scope) : Role → Name → String
  | .supertype => s.superText
  | .slot => s.slotText
  | .interface | .parameter | .result => s.text

theorem Scope.write_mem_readings (s : Scope) (role : Role) (n : Name) : s.write role n ∈ n.readings := by
  cases role with
  | supertype => exact s.elim_boundIn_mem_readings s.early n
  | slot => exact s.elim_boundIn_mem_readings s.late n
  | interface | parameter | result => exact s.text_mem_readings n

/-! ### What a class mentions -/

/-- The types that a member mentions, where a descriptor shows it. -/
def TraitBody.mentions : TraitBody → List (Role × Name)
  | .slot declared _ _ => declared.toList.map (Role.slot, ·)
  | .method _ params returns =>
    (params.filterMap ParamDef.typeName).map (Role.parameter, ·) ++ returns.toList.map (Role.result, ·)
  | .classRef _ | .function _ _ => []

/-- The member is a method or accessor of this kind; a data slot, if no kind is given. -/
def TraitBody.isOf (kind : Option MethodKind) : TraitBody → Bool
  | .slot .. => kind.isNone
  | .method k .. => kind = some k
  | _ => false

/-- The types that a class mentions: supertype, interfaces, and what its members mention, in the order in
    which a descriptor shows them. -/
def ClassDef.mentions (c : ClassDef) : List (Role × Name) :=
  let members (kind : Option MethodKind) := (c.traits.filter (·.body.isOf kind)).flatMap (·.body.mentions)
  c.superName.toList.map (Role.supertype, ·) ++ c.interfaces.map (Role.interface, ·) ++ members none ++
    members (some .method) ++ members (some .getter) ++ members (some .setter)

def Method.typeTexts (m : Method) : List String :=
  m.parameters.filterMap Parameter.typeName ++ m.returnType.toList

/-- The types that a descriptor gives, in its order. -/
def ClassDescriptor.typeTexts (d : ClassDescriptor) : List String :=
  d.superName.toList ++ d.interfaces ++ d.vars.flatMap (·.typeName.toList) ++ d.methods.flatMap
    Method.typeTexts ++ d.getters.flatMap Method.typeTexts ++ d.setters.flatMap Method.typeTexts

namespace TraitBody

theorem snd_mem_types {b : TraitBody} (h : m ∈ b.mentions) : m.2 ∈ b.types := by
  cases b with
  | slot declared initializer isConst =>
    obtain ⟨n, hn, rfl⟩ := List.mem_map.1 h
    exact hn
  | method kind params returns =>
    rcases List.mem_append.1 h with param | returned
    · obtain ⟨n, hn, rfl⟩ := List.mem_map.1 param
      exact List.mem_append_left _ hn
    · obtain ⟨n, hn, rfl⟩ := List.mem_map.1 returned
      exact List.mem_append_right _ hn
  | classRef | function => cases h

theorem fst_of_mem_mentions {b : TraitBody} (h : m ∈ b.mentions) :
    m.1 = .slot ∨ m.1 = .parameter ∨ m.1 = .result := by
  cases b with
  | slot declared initializer isConst =>
    obtain ⟨n, -, rfl⟩ := List.mem_map.1 h
    exact .inl rfl
  | method kind params returns =>
    rcases List.mem_append.1 h with param | returned
    · obtain ⟨n, -, rfl⟩ := List.mem_map.1 param
      exact .inr (.inl rfl)
    · obtain ⟨n, -, rfl⟩ := List.mem_map.1 returned
      exact .inr (.inr rfl)
  | classRef | function => cases h

end TraitBody

namespace ClassDef

variable {c : ClassDef} {m : Role × Name}

theorem mem_mentions : m ∈ c.mentions ↔ (m.1 = .supertype ∧ m.2 ∈ c.superName) ∨
    (m.1 = .interface ∧ m.2 ∈ c.interfaces) ∨ ∃ d ∈ c.traits, m ∈ d.body.mentions := by
  obtain ⟨role, n⟩ := m
  have shown (b : TraitBody) (h : (role, n) ∈ b.mentions) :
      b.isOf none = true ∨ b.isOf (some .method) = true ∨ b.isOf (some .getter) = true ∨
        b.isOf (some .setter) = true := by
    cases b with
    | slot declared initializer isConst => exact .inl rfl
    | method kind params returns => cases kind <;> simp [TraitBody.isOf]
    | classRef | function => cases h
  simp only [mentions, List.mem_append, List.mem_map, Option.mem_toList, Prod.mk.injEq, List.mem_flatMap,
    List.mem_filter, or_assoc]
  constructor
  · rintro (⟨_, h, rfl, rfl⟩ | ⟨_, h, rfl, rfl⟩ | ⟨d, h, hm⟩ | ⟨d, h, hm⟩ | ⟨d, h, hm⟩ | ⟨d, h, hm⟩)
    · exact .inl ⟨rfl, h⟩
    · exact .inr (.inl ⟨rfl, h⟩)
    all_goals exact .inr (.inr ⟨d, h.1, hm⟩)
  · rintro (⟨rfl, h⟩ | ⟨rfl, h⟩ | ⟨d, h, hm⟩)
    · exact .inl ⟨n, h, rfl, rfl⟩
    · exact .inr (.inl ⟨n, h, rfl, rfl⟩)
    · refine .inr (.inr ?_)
      rcases shown d.body hm with kind | kind | kind | kind
      · exact .inl ⟨d, ⟨h, kind⟩, hm⟩
      · exact .inr (.inl ⟨d, ⟨h, kind⟩, hm⟩)
      · exact .inr (.inr (.inl ⟨d, ⟨h, kind⟩, hm⟩))
      · exact .inr (.inr (.inr ⟨d, ⟨h, kind⟩, hm⟩))

theorem mem_mentions_of_member {index : Nat} (h : member ∈ Program.members index c)
    (hm : m ∈ member.2.body.mentions) : m ∈ c.mentions :=
  mem_mentions.2 (.inr (.inr ⟨member.2, Program.snd_members index c ▸ List.mem_map_of_mem h, hm⟩))

end ClassDef

/-! ### What a descriptor gives -/

/-- What is made of the items that pass a test, told by the items. -/
theorem flatMap_filterMap_eq {α β γ δ : Type} {make : α → Option β} {test : α → Bool} {f : β → List δ}
    {g : α → List γ} {h : γ → δ} (same : ∀ a, (make a).toList.flatMap f = if test a then (g a).map h else [])
    (items : List α) :
    (items.filterMap make).flatMap f = ((items.filter test).flatMap g).map h := by
  induction items with
  | nil => rfl
  | cons a rest ih =>
    have first : ((a :: rest).filterMap make).flatMap f
        = (make a).toList.flatMap f ++ (rest.filterMap make).flatMap f := by
      cases made : make a <;> simp [made]
    rw [first, same, ih]
    by_cases passes : test a = true <;> simp [passes]

namespace Program

open Publication

variable {p : Program} {s s' : Scope} {source owner : String} {c : ClassDef} {index : Nat}

theorem typeTexts_vars (p : Program) (s : Scope) (owner : String) (shown : List (TraitRef × TraitDef)) :
    (shown.filterMap ((p.pen s).data? owner)).flatMap (fun v => v.typeName.toList)
      = (((shown.map Prod.snd).filter (·.body.isOf none)).flatMap (·.body.mentions)).map fun m =>
        s.write m.1 m.2 := by
  rw [List.filter_map, List.flatMap_map]
  refine flatMap_filterMap_eq (fun m => ?_) shown
  unfold Pen.data?
  cases hbody : m.2.body with
  | slot declared initializer isConst =>
    cases declared <;> simp [pen, TraitBody.isOf, TraitBody.mentions, hbody, Scope.write]
  | _ => simp [TraitBody.isOf, hbody]

theorem typeTexts_methods (p : Program) (s : Scope) (owner : String) (kind : MethodKind)
    (shown : List (TraitRef × TraitDef)) :
    ((p.pen s).methods owner kind shown).flatMap Method.typeTexts
      = (((shown.map Prod.snd).filter (·.body.isOf (some kind))).flatMap (·.body.mentions)).map
          fun m => s.write m.1 m.2 := by
  rw [List.filter_map, List.flatMap_map, Pen.methods, List.filter_filterMap]
  refine flatMap_filterMap_eq (fun m => ?_) shown
  unfold Pen.method?
  cases hbody : m.2.body with
  | method k params returns =>
    by_cases here : k = kind
    · have texts : (params.map fun p : ParamDef => (⟨p.name, p.typeName.map s.text, p.optional⟩ : Parameter)
          ).filterMap Parameter.typeName = (params.filterMap ParamDef.typeName).map s.text := by
        rw [List.filterMap_map, List.map_filterMap]
        rfl
      cases returns <;>
        simp [pen, here, Option.filter_some, TraitBody.isOf, TraitBody.mentions, hbody, Scope.write,
          Method.typeTexts, texts, Function.comp_def]
    · have other : ¬kind = k := fun same => here same.symm
      simp [here, other, Option.filter_some, TraitBody.isOf, hbody]
  | _ => simp [TraitBody.isOf, hbody]

/-- The types that a descriptor gives are those that the class mentions, each written by its role. -/
theorem typeTexts_describe (p : Program) (s : Scope) (source : String) (index : Nat) (c : ClassDef) :
    (p.describe s source c (members index c)).typeTexts = c.mentions.map fun m => s.write m.1 m.2 := by
  have members := snd_members index c
  unfold ClassDescriptor.typeTexts describe Pen.draw
  rw [typeTexts_vars, typeTexts_methods, typeTexts_methods, typeTexts_methods, members]
  unfold ClassDef.mentions
  cases c.superName <;> simp [pen, Scope.write, Function.comp_def]

/-! ### Scopes that agree -/

theorem data?_congr (texts : ∀ m ∈ member.2.body.mentions, s.write m.1 m.2 = s'.write m.1 m.2)
    (values : ∀ n, (Role.slot, n) ∈ member.2.body.mentions → s.value (some n) = s'.value (some n)) :
    (p.pen s).data? owner member = (p.pen s').data? owner member := by
  unfold Pen.data?
  cases hbody : member.2.body with
  | slot declared initializer isConst =>
    rw [hbody] at texts values
    have mentioned (n : Name) (hn : n ∈ declared) :
        (Role.slot, n) ∈ (TraitBody.slot declared initializer isConst).mentions :=
      List.mem_map_of_mem (Option.mem_toList.2 hn)
    have typeName : declared.map s.slotText = declared.map s'.slotText :=
      Option.map_congr fun n hn => texts (.slot, n) (mentioned n hn)
    have value : s.value declared = s'.value declared := by
      cases declared with
      | none => rfl
      | some n => exact values n (mentioned n rfl)
    simp only [pen, typeName, start?, value]
  | _ => rfl

theorem method?_congr (texts : ∀ m ∈ member.2.body.mentions, s.write m.1 m.2 = s'.write m.1 m.2) :
    (p.pen s).method? owner member = (p.pen s').method? owner member := by
  unfold Pen.method?
  cases hbody : member.2.body with
  | method k params returns =>
    rw [hbody] at texts
    have returnType : returns.map s.text = returns.map s'.text := Option.map_congr fun n hn =>
      texts (.result, n) (List.mem_append_right _ (List.mem_map_of_mem (Option.mem_toList.2 hn)))
    have parameters : (params.map fun p : ParamDef =>
        (⟨p.name, p.typeName.map s.text, p.optional⟩ : Parameter)) = params.map fun p =>
        ⟨p.name, p.typeName.map s'.text, p.optional⟩ := by
      refine List.map_congr_left fun param hparam => ?_
      have typeName : param.typeName.map s.text = param.typeName.map s'.text := Option.map_congr fun n hn =>
        texts (.parameter, n) (List.mem_append_left _
          (List.mem_map_of_mem (List.mem_filterMap.2 ⟨param, hparam, hn⟩)))
      rw [typeName]
    simp only [pen, returnType, parameters]
  | _ => rfl

/-- Scopes that write what a class mentions alike give the same descriptor. -/
theorem describe_congr (texts : ∀ m ∈ c.mentions, s.write m.1 m.2 = s'.write m.1 m.2)
    (values : ∀ n, (Role.slot, n) ∈ c.mentions → s.value (some n) = s'.value (some n)) :
    p.describe s source c (members index c) = p.describe s' source c (members index c) := by
  have superName : c.superName.map s.superText = c.superName.map s'.superText :=
    Option.map_congr fun n hn => texts (.supertype, n) (ClassDef.mem_mentions.2 (.inl ⟨rfl, hn⟩))
  have interfaces : c.interfaces.map s.text = c.interfaces.map s'.text :=
    List.map_congr_left fun n hn => texts (.interface, n) (ClassDef.mem_mentions.2 (.inr (.inl ⟨rfl, hn⟩)))
  have vars : (members index c).filterMap ((p.pen s).data? c.name.text)
      = (members index c).filterMap ((p.pen s').data? c.name.text) := by
    refine List.filterMap_congr fun member h => data?_congr (fun m hm => ?_) fun n hn => ?_
    · exact texts m (ClassDef.mem_mentions_of_member h hm)
    · exact values n (ClassDef.mem_mentions_of_member h hn)
  have methods : (members index c).filterMap ((p.pen s).method? c.name.text)
      = (members index c).filterMap ((p.pen s').method? c.name.text) :=
    List.filterMap_congr fun member h => method?_congr fun m hm =>
      texts m (ClassDef.mem_mentions_of_member h hm)
  simp only [describe, Pen.draw, Pen.methods, vars, methods]
  simp only [pen, superName, interfaces]

end Program

/-! ### What a class depends on -/

/-- The names that are to be known before a type in a role is written. -/
def Dependencies.ofRole (d : Dependencies) : Role → List Name
  | .supertype | .interface => d.inheritance
  | .slot | .parameter | .result => d.types

theorem Dependencies.mem_concat {parts : List Dependencies} {d : Dependencies} (h : d ∈ parts) :
    (∀ n ∈ d.inheritance, n ∈ (concat parts).inheritance) ∧ ∀ n ∈ d.types, n ∈ (concat parts).types := by
  have grows (parts : List Dependencies) (start : Dependencies) :
      (∀ n ∈ start.inheritance, n ∈ (parts.foldl append start).inheritance) ∧
        ∀ n ∈ start.types, n ∈ (parts.foldl append start).types := by
    induction parts generalizing start with
    | nil => exact ⟨fun _ => id, fun _ => id⟩
    | cons first rest ih =>
      obtain ⟨inheritance, types⟩ := ih (start.append first)
      exact ⟨fun n hn => inheritance n (List.mem_append_left _ hn), fun n hn =>
        types n (List.mem_append_left _ hn)⟩
  obtain ⟨before, after, rfl⟩ := List.append_of_mem h
  unfold concat
  rw [List.foldl_append, List.foldl_cons]
  obtain ⟨inheritance, types⟩ := grows after ((before.foldl append {}).append d)
  exact ⟨fun n hn => inheritance n (List.mem_append_right _ hn), fun n hn =>
    types n (List.mem_append_right _ hn)⟩

/-- A program depends on what its classes mention, unless it is builtin or its own. -/
theorem Program.mem_dependencies {p : Program} {c : ClassDef} (hc : c ∈ p.classes)
    (hm : m ∈ c.mentions) (foreign : m.2 ∉ p.topLevel.map Name.qualified) (plain : m.2.isBuiltin = false) :
    m.2 ∈ p.dependencies.ofRole m.1 := by
  have kept : (!(p.topLevel.map Name.qualified).contains m.2 && !m.2.isBuiltin) = true := by
    simpa [plain] using foreign
  obtain ⟨role, n⟩ := m
  have inherited (hn : n ∈ c.superName.toList ++ c.interfaces) : n ∈ p.dependencies.inheritance := by
    refine List.mem_filter.2 ⟨?_, kept⟩
    refine (Dependencies.mem_concat (List.mem_append_left _ (List.mem_map_of_mem hc))).1 n ?_
    exact (Dependencies.mem_concat (.head _)).1 n hn
  have typed (d : TraitDef) (hd : d ∈ c.traits) (hn : n ∈ d.body.types) : n ∈ p.dependencies.types := by
    refine List.mem_filter.2 ⟨?_, kept⟩
    refine (Dependencies.mem_concat (List.mem_append_left _ (List.mem_map_of_mem hc))).2 n ?_
    exact (Dependencies.mem_concat (.tail _ (List.mem_map_of_mem hd))).2 n hn
  rcases ClassDef.mem_mentions.1 hm with ⟨rfl, hn⟩ | ⟨rfl, hn⟩ | ⟨d, hd, hn⟩
  · exact inherited (List.mem_append_left _ (Option.mem_toList.2 hn))
  · exact inherited (List.mem_append_right _ hn)
  · have listed := typed d hd (TraitBody.snd_mem_types hn)
    rcases TraitBody.fst_of_mem_mentions hn with rfl | rfl | rfl <;> exact listed

end AbcBuild
