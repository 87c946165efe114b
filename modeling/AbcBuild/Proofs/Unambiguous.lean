/-
Module: AbcBuild.Proofs.Unambiguous
Purpose: References that leave nothing to chance.  A unit takes them for what they would be taken for if it
  knew all that the sources know, whatever it has met so far, in this build or in earlier ones that it comes
  from.
Main exports: Name.isUnambiguous, Part.unambiguousIn, Part.scope, Part.SeenIn.write_unambiguous
-/
import AbcBuild.Proofs.Contribution
import AbcBuild.Proofs.Mentions

namespace AbcBuild

/-- The reference has one candidate at most; or no source knows any of its candidates; or none of them is
    builtin, and the first that a source knows is the first that a source defines. -/
def Name.isUnambiguous (known defined : QName → Bool) (n : Name) : Bool :=
  n.isSettled || (n.candidates.find? known).isNone ||
    (n.builtin?.isNone && n.candidates.find? known = n.candidates.find? defined)

theorem Name.isUnambiguous_of_first {known defined : QName → Bool} {n : Name} (plain : n.builtin? = none)
    (first : n.candidates.find? known = n.candidates.find? defined) :
    n.isUnambiguous known defined = true := by
  simp [isUnambiguous, plain, first]

theorem Name.isBuiltin_eq_false {n : Name} (h : n.builtin? = none) : n.isBuiltin = false := by
  rw [Name.isBuiltin, Bool.eq_false_iff, ne_eq, List.any_eq_true]
  rintro ⟨q, candidate, builtin⟩
  exact List.find?_eq_none.1 h q candidate builtin

/-! ### Scopes that find the same -/

namespace Scope

variable {s s' : Scope} {n : Name} {role : Role}

/-- There is one way to write a reference with one candidate. -/
theorem write_of_isSettled (h : n.isSettled = true) (s s' : Scope) (role role' : Role) :
    s.write role n = s'.write role' n := by
  obtain ⟨only, readings⟩ := Name.readings_eq h
  have first := s.write_mem_readings role n
  have second := s'.write_mem_readings role' n
  rw [readings, List.mem_singleton] at first second
  rw [first, second]

theorem value_of_isSettled (h : n.isSettled = true) (s s' : Scope) :
    s.value (some n) = s'.value (some n) := by
  funext v
  have fixed : ∀ m ∈ some n, m.isSettled = true := by
    rintro m ⟨⟩
    exact h
  obtain ⟨only, readings⟩ := Constant.readings_eq fixed v
  have first := Constant.value_mem_readings s (some n) v
  have second := Constant.value_mem_readings s' (some n) v
  rw [readings, List.mem_singleton] at first second
  rw [first, second]

theorem boundIn_congr {known known' : QName → Bool}
    (h : n.candidates.find? known = n.candidates.find? known') :
    n.boundIn known = n.boundIn known' := by
  rw [Name.boundIn, Name.boundIn, h]

variable (late : n.candidates.find? s.late = n.candidates.find? s'.late)
include late

theorem text_congr (defined : n.candidates.find? s.defined = n.candidates.find? s'.defined) :
    s.text n = s'.text n := by
  rw [text, text, late, defined]

/-- Scopes in which a reference finds the same candidates write it alike. -/
theorem write_congr (early : role = .supertype → n.candidates.find? s.early = n.candidates.find? s'.early)
    (defined : n.candidates.find? s.defined = n.candidates.find? s'.defined) :
    s.write role n = s'.write role n := by
  have text := text_congr late defined
  cases role with
  | supertype => simp only [write, superText, text, boundIn_congr (early rfl)]
  | slot => simp only [write, slotText, text, boundIn_congr late]
  | interface | parameter | result => exact text

theorem value_congr : s.value (some n) = s'.value (some n) := by
  funext v
  simp only [value, Option.bind_some, boundIn_congr late]

end Scope

/-! ### What a unit finds -/

/-- Names that are added are there afterwards, whether or not they were before. -/
theorem mem_addNames {names more : List Name} {n : Name} (h : n ∈ more) : n ∈ addNames names more := by
  have kept (more names : List Name) (held : n ∈ names) : n ∈ addNames names more := by
    induction more generalizing names with
    | nil => exact held
    | cons first rest ih =>
      refine ih _ ?_
      split
      · exact held
      · exact List.mem_append_left _ held
  induction more generalizing names with
  | nil => cases h
  | cons first rest ih =>
    rcases List.mem_cons.1 h with rfl | later
    · refine kept rest _ ?_
      split
      next known => simpa using known
      next => exact List.mem_append_right _ (List.mem_singleton.2 rfl)
    · exact ih later

namespace Part

variable {config : Config} {parts : List (Part config)}

/-- What a part knows by itself is among its definitions. -/
def Declared (parts : List (Part config)) : Prop :=
  ∀ part ∈ parts, ∀ q, part.tree.knows q = true → q ∈ part.tree.topLevel

/-- The scope of a unit that has met all others. -/
def scope (parts : List (Part config)) : Scope := ⟨known parts, known parts, defines parts, fun _ => id⟩

/-- A part defines the name and knows it by itself. -/
def declares (parts : List (Part config)) (q : QName) : Bool :=
  parts.any fun part => part.tree.knows q && part.tree.topLevel.contains q

/-- A part of one of the builds knows the name by itself or defines it. -/
def metIn (builds : List (List (Part config))) (q : QName) : Bool :=
  builds.any fun parts => known parts q || defines parts q

/-- The reference has one candidate at most; or no part knows any of its candidates, and the first that is
    defined is the same in all builds; or none of them is builtin, and the first that a part of any build
    knows or defines is, in each build, one that a part both knows and defines. -/
def unambiguousIn (builds : List (List (Part config))) (n : Name) : Bool :=
  n.isSettled ||
    ((n.candidates.find? (knownIn builds)).isNone && builds.all fun parts => builds.all fun parts' =>
      n.candidates.find? (defines parts) = n.candidates.find? (defines parts')) ||
    (n.builtin?.isNone && builds.all fun parts =>
      n.candidates.find? (metIn builds) = n.candidates.find? (declares parts))

section

variable {q : QName}

theorem declares_iff :
    declares parts q = true ↔ ∃ part ∈ parts, part.tree.knows q = true ∧ q ∈ part.tree.topLevel := by
  simp [declares]

theorem known_of_declares (h : declares parts q = true) : known parts q = true := by
  obtain ⟨part, member, knows, -⟩ := declares_iff.1 h
  exact List.any_eq_true.2 ⟨part, member, knows⟩

theorem defines_of_declares (h : declares parts q = true) : defines parts q = true := by
  obtain ⟨part, member, -, defined⟩ := declares_iff.1 h
  exact defines_iff.2 ⟨part, member, defined⟩

/-- If parts define what they know, then a name that is known is defined. -/
theorem Declared.defines (declared : Declared parts) (h : known parts q = true) :
    Part.defines parts q = true := by
  obtain ⟨part, member, knows⟩ := List.any_eq_true.1 h
  exact defines_iff.2 ⟨part, member, declared part member q knows⟩

end

/-- A test that accepts less finds the same if it accepts what the other one finds. -/
theorem find?_eq_of_imp {names : List QName} {test test' : QName → Bool}
    (less : ∀ q, test q = true → test' q = true) (hit : ∀ q, names.find? test' = some q → test q = true) :
    names.find? test = names.find? test' := by
  cases found : names.find? test' with
  | none =>
    rw [List.find?_eq_none] at found ⊢
    exact fun q member accepted => found q member (less q accepted)
  | some q =>
    obtain ⟨-, before, after, split, skipped⟩ := List.find?_eq_some_iff_append.1 found
    refine List.find?_eq_some_iff_append.2 ⟨hit q found, before, after, split, fun q' earlier => ?_⟩
    have refused := skipped q' earlier
    rw [Bool.not_eq_true'] at refused ⊢
    exact Bool.eq_false_iff.2 fun accepted => Bool.eq_false_iff.1 refused (less q' accepted)

/-- In a build of parts that define what they know, an unambiguous reference is unambiguous. -/
theorem Declared.unambiguousIn (declared : Declared parts) {n : Name}
    (h : n.isUnambiguous (known parts) (Part.defines parts) = true) :
    Part.unambiguousIn [parts] n = true := by
  have met : metIn [parts] = Part.defines parts := by
    funext q
    have defines := declared.defines (q := q)
    simp only [metIn, List.any_cons, List.any_nil, Bool.or_false, Bool.or_eq_right_iff_imp]
    exact defines
  have declares' : declares parts = known parts := by
    funext q
    refine Bool.eq_iff_iff.2 ⟨known_of_declares, fun knows => ?_⟩
    obtain ⟨part, member, own⟩ := List.any_eq_true.1 knows
    exact declares_iff.2 ⟨part, member, own, declared part member q own⟩
  simp only [Name.isUnambiguous, Bool.or_eq_true, Bool.and_eq_true, decide_eq_true_eq] at h
  simp only [Part.unambiguousIn, knownIn_singleton, met, declares', Bool.or_eq_true, Bool.and_eq_true,
    List.all_eq_true, List.mem_singleton, forall_eq, decide_eq_true_eq, and_true]
  exact h.imp_right fun both => ⟨both.1, both.2.symm⟩

variable {builds : List (List (Part config))} {part : Part config} {s : Scope}

/-- A part that has met the definition that a reference means in a build finds it. -/
theorem find?_eq_of_covers {seen : QName → Bool}
    (within : ∀ q, seen q = true → knownIn builds q = true) {names : List Name}
    (covers : Covers parts names seen)
    {n : Name} (listed : n ∈ names)
    (first : n.candidates.find? (metIn builds) = n.candidates.find? (declares parts))
    (defined : n.candidates.find? (defines parts) = n.candidates.find? (metIn builds)) :
    n.candidates.find? seen = n.candidates.find? (metIn builds) := by
  refine find?_eq_of_imp (fun q held => ?_) fun q found => ?_
  · obtain ⟨parts', among', knows⟩ := List.any_eq_true.1 (within q held)
    exact List.any_eq_true.2 ⟨parts', among', Bool.or_eq_true_iff.2 (.inl knows)⟩
  · have declared := List.find?_some (first.symm.trans found)
    obtain ⟨other, member, knows, top⟩ := declares_iff.1 declared
    have means : meaning parts n = some q :=
      (meaning_eq_some_iff (defines_of_declares declared)).2 (defined.trans found)
    exact covers n listed q means other member top q knows

/-- A unit writes the unambiguous references of its classes as if it had met all others, in any of the builds
    that it comes from. -/
theorem SeenIn.write_unambiguous (seen : part.SeenIn builds s) (among : parts ∈ builds) {p : Program}
    (htree : part.tree = .abc p) {c : ClassDef} (hc : c ∈ p.classes) {m : Role × Name} (hm : m ∈ c.mentions)
    (unambiguous : unambiguousIn builds m.2 = true) :
    s.write m.1 m.2 = (scope parts).write m.1 m.2 ∧
      (m.1 = .slot → s.value (some m.2) = (scope parts).value (some m.2)) := by
  obtain ⟨role, n⟩ := m
  obtain ⟨parts', among', sees⟩ := seen
  by_cases settled : n.isSettled = true
  · exact ⟨Scope.write_of_isSettled settled .., fun _ => Scope.value_of_isSettled settled ..⟩
  · suffices found : (role = .supertype → n.candidates.find? s.early = n.candidates.find? (known parts)) ∧
        n.candidates.find? s.late = n.candidates.find? (known parts) ∧
        n.candidates.find? s.defined = n.candidates.find? (defines parts) by
      exact ⟨Scope.write_congr found.2.1 found.1 found.2.2, fun _ => Scope.value_congr found.2.1⟩
    rw [sees.defined]
    have cases := unambiguous
    simp only [unambiguousIn, settled, Bool.false_or, Bool.or_eq_true, Option.isNone_iff_eq_none,
      Bool.and_eq_true, List.all_eq_true, decide_eq_true_eq] at cases
    rcases cases with ⟨unknown, same⟩ | ⟨plain, first⟩
    · have none {test : QName → Bool} (less : ∀ q, test q = true → knownIn builds q = true) :
          n.candidates.find? test = none :=
        (find?_eq_of_imp less (by simp [unknown])).trans unknown
      have here := none fun q knows => List.any_eq_true.2 ⟨parts, among, knows⟩
      rw [here]
      exact ⟨fun _ => none sees.early.within, none sees.late.within, same parts' among' parts among⟩
    · -- in each build, what is found is the first candidate that any part knows or defines
      have knows (parts : List (Part config)) (among : parts ∈ builds) :
          n.candidates.find? (known parts) = n.candidates.find? (metIn builds) :=
        find?_eq_of_imp (fun q held => List.any_eq_true.2 ⟨parts, among, Bool.or_eq_true_iff.2 (.inl held)⟩)
          fun q found => known_of_declares (List.find?_some ((first parts among).symm.trans found))
      have defined (parts : List (Part config)) (among : parts ∈ builds) :
          n.candidates.find? (defines parts) = n.candidates.find? (metIn builds) :=
        find?_eq_of_imp (fun q held => List.any_eq_true.2 ⟨parts, among, Bool.or_eq_true_iff.2 (.inr held)⟩)
          fun q found => defines_of_declares (List.find?_some ((first parts among).symm.trans found))
      rw [knows parts among, defined parts among, defined parts' among']
      -- a reference with several candidates is none of the names that the program defines
      have foreign : n ∉ p.topLevel.map Name.qualified := by
        rintro own
        obtain ⟨q, -, rfl⟩ := List.mem_map.1 own
        exact settled rfl
      have listed := Program.mem_dependencies hc hm foreign (Name.isBuiltin_eq_false plain)
      have inheritance := sees.inheritance p htree
      have types := sees.types p htree
      rw [htree] at inheritance types
      have finds {seen : QName → Bool} (own : part.Knows (knownIn builds) seen) {names names' : List Name}
          (covers : Covers parts' (addNames names names') seen) (listed : n ∈ names') :=
        find?_eq_of_covers own.within covers (mem_addNames listed) (first parts' among')
          (defined parts' among')
      cases role with
      | supertype =>
        exact ⟨fun _ => finds sees.early inheritance listed,
          finds sees.late (inheritance.mono s.grows) listed, rfl⟩
      | interface => exact ⟨nofun, finds sees.late (inheritance.mono s.grows) listed, rfl⟩
      | slot | parameter | result => exact ⟨nofun, finds sees.late types listed, rfl⟩

/-- In a build that takes nothing over, a unit writes the unambiguous references of its classes as if it had
    met all others. -/
theorem Sees.write_unambiguous (sees : part.Sees (known parts) parts s) (declared : Declared parts)
    {p : Program} (htree : part.tree = .abc p) {c : ClassDef} (hc : c ∈ p.classes) {m : Role × Name}
    (hm : m ∈ c.mentions) (unambiguous : m.2.isUnambiguous (known parts) (Part.defines parts) = true) :
    s.write m.1 m.2 = (scope parts).write m.1 m.2 ∧
      (m.1 = .slot → s.value (some m.2) = (scope parts).value (some m.2)) :=
  (seenIn_singleton.2 sees).write_unambiguous (List.mem_singleton.2 rfl) htree hc hm
    (declared.unambiguousIn unambiguous)

end Part

end AbcBuild
