/-
Module: AbcBuild.Proofs.Resolution
Purpose: What a reference through several namespaces is taken for in a build without a cache: the first
  candidate that a source defines.  A definition that only a script knows, as another name of a class, may
  lose to a later candidate.
Main exports: MultiName.Written, Part.Sees.written, Compilation.open_names_take_first_definition,
  Compilation.first_definition_overtaken
-/
import AbcBuild.Proofs.OneType

namespace AbcBuild

variable {config : Config}

/-- Without a hint, a reference is written as its first candidate, or without a namespace. -/
theorem Name.elim_head? (n : Name) : n.candidates.head?.elim n.localName QName.text = n.first.text := by
  cases n with
  | qualified q => rfl
  | multi m =>
    obtain ⟨spaces, name⟩ := m
    cases spaces with
    | nil | cons => rfl

/-- How a reference is written down: as the first candidate that is defined, and as the first candidate of
    all, or without a namespace, if none is.  If the first that is defined is not known, a known candidate
    after it may stand in its place. -/
structure MultiName.Written (known defined : QName → Bool) (m : MultiName) (text : String) : Prop where
  found : ∀ q, m.candidates.find? defined = some q → text = q.text ∨
    known q = false ∧ ∃ q', known q' = true ∧ [q, q'].Sublist m.candidates ∧ text = q'.text
  missing : m.candidates.find? defined = none → text = m.first.text

namespace Part

variable {parts : List (Part config)} {n : Name} {q q' : QName}

/-- If the first candidate that is defined is known, it is the first that is known. -/
theorem Declared.find?_known (declared : Declared parts)
    (first : n.candidates.find? (Part.defines parts) = some q) (held : known parts q = true) :
    n.candidates.find? (known parts) = some q := by
  refine (find?_eq_of_imp (fun _ => declared.defines) fun q' found => ?_).trans first
  cases first.symm.trans found
  exact held

/-- A candidate that is known stands nowhere before the first that is defined. -/
theorem Declared.first_or_later (declared : Declared parts)
    (first : n.candidates.find? (Part.defines parts) = some q) (candidate : q' ∈ n.candidates)
    (held : known parts q' = true) : q' = q ∨ [q, q'].Sublist n.candidates := by
  obtain ⟨-, before, after, split, skipped⟩ := List.find?_eq_some_iff_append.1 first
  rw [split, List.mem_append, List.mem_cons] at candidate
  rcases candidate with earlier | here | later
  · have undefined := skipped q' earlier
    rw [declared.defines held] at undefined
    cases undefined
  · exact Or.inl here
  · apply Or.inr
    rw [split]
    have after : [q, q'].Sublist (q :: after) := (List.singleton_sublist.2 later).cons_cons q
    exact after.trans (List.sublist_append_right before _)

variable {part : Part config} {s : Scope}

/-- If no source knows the first candidate that is defined, a unit finds only candidates after it. -/
theorem Knows.find?_later {seen : QName → Bool} (knows : part.Knows (known parts) seen)
    (declared : Declared parts) {m : MultiName} (unknown : known parts q = false)
    (first : m.candidates.find? (Part.defines parts) = some q) (found : m.candidates.find? seen = some q') :
    known parts q' = true ∧ [q, q'].Sublist m.candidates := by
  have held : known parts q' = true := knows.within q' (List.find?_some found)
  apply And.intro held
  rcases declared.first_or_later (n := .multi m) first (List.mem_of_find?_eq_some found)
    held with rfl | later
  · exact (Bool.false_ne_true (unknown.symm.trans held)).elim
  · exact later

/-- In a build of its own, a unit writes each reference of its classes as the first candidate that a source
    defines, unless only a script knows that one. -/
theorem Sees.written (sees : part.Sees (known parts) parts s) (declared : Declared parts) {p : Program}
    (htree : part.tree = .abc p) {c : ClassDef} (hc : c ∈ p.classes) {role : Role} {m : MultiName}
    (hm : (role, Name.multi m) ∈ c.mentions) (plain : (Name.multi m).builtin? = none) :
    m.Written (known parts) (Part.defines parts) (s.write role (.multi m)) where
  found := by
    intro q first
    by_cases held : known parts q = true
    · have first' := declared.find?_known (n := .multi m) first held
      have unambiguous := Name.isUnambiguous_of_first plain (first'.trans first.symm)
      apply Or.inl
      rw [(sees.write_unambiguous declared htree hc hm unambiguous).1, write_scope parts plain]
      exact Scope.text_of_find? first'
    · have unknown : known parts q = false := Bool.eq_false_iff.2 held
      -- a candidate that the frame knows comes later; without one, the sources of the build are asked
      have text : s.text (.multi m) = q.text ∨ known parts q = false ∧
          ∃ q', known parts q' = true ∧ [q, q'].Sublist m.candidates ∧ s.text (.multi m) = q'.text := by
        cases late : m.candidates.find? s.late with
        | none =>
          apply Or.inl
          rw [Scope.text, Name.candidates, late, sees.defined, first]
          rfl
        | some q' =>
          obtain ⟨held', later⟩ := sees.late.find?_later declared unknown first late
          exact Or.inr ⟨unknown, q', held', later, Scope.text_of_find? late⟩
      by_cases supertype : role = .supertype
      · subst supertype
        rw [Scope.write, Scope.superText, Name.boundIn, plain, Option.or_none]
        cases early : m.candidates.find? s.early with
        | none =>
          rw [Name.candidates, early]
          exact text
        | some q' =>
          obtain ⟨held', later⟩ := sees.early.find?_later declared unknown first early
          rw [Name.candidates, early]
          exact Or.inr ⟨unknown, q', held', later, rfl⟩
      · rw [Scope.write_eq_text plain supertype]
        exact text
  missing := by
    intro undefined
    have unknown : m.candidates.find? (known parts) = none := by
      rw [List.find?_eq_none] at undefined ⊢
      intro q candidate knows
      exact undefined q candidate (declared.defines knows)
    have unambiguous := Name.isUnambiguous_of_first (n := .multi m) plain (unknown.trans undefined.symm)
    rw [(sees.write_unambiguous declared htree hc hm unambiguous).1, write_scope parts plain]
    rw [Scope.text, scope, Name.candidates, unknown, undefined, Option.or_none, Option.none_or]
    exact Name.elim_head? (.multi m)

end Part

theorem ParseTree.forall₂_mentioned {p : Program} {s : Scope} {source name : String} {d : ClassDescriptor}
    (shows : (ParseTree.abc p).shown? s source name = some d) {R : Role × Name → String → Prop}
    (written : ∀ cls ∈ p.classes, ∀ m ∈ cls.mentions, R m (s.write m.1 m.2)) :
    List.Forall₂ R (ParseTree.mentioned name (.abc p)) d.typeTexts := by
  obtain ⟨⟨index, cls⟩, last, rfl⟩ := Option.map_eq_some_iff.1 shows
  rw [Program.typeTexts_describe, mentioned, last, Option.elim_some, List.forall₂_map_right_iff,
    List.forall₂_same]
  exact written cls (Program.mem_of_lastNamed? last).1

namespace Compilation

/-- A build without a cache in which the classes of each block are among its definitions.  Each class of the
    report is shown by a source that has it.  If that source is a block, each reference of the class through
    several namespaces without a builtin candidate, in whatever role, is written as the first candidate that
    a source of the build defines, and as its first candidate of all if none is defined; only if no source
    has a class or other definition of the name that it defines, a later candidate may be written that is
    one. -/
theorem open_names_take_first_definition (config : Config) (edits : List Edit)
    (fresh : (after config edits).cache.isEmpty = true)
    (declared : ∀ s ∈ (after config edits).sources.values, s.declaresClasses config = true)
    (r : BuildReport) (ok : (after config edits).build.1 = .ok r) (name : String)
    (key : name ∈ r.classes.keys) :
    let parts := Part.ofSources config (after config edits).sources.values
    ∃ s ∈ (after config edits).sources.values, ∃ tree d, s.tree? config = some tree ∧
      name ∈ tree.classNames ∧ (after config edits).published? name = some d ∧ d.source = some s.name ∧
      (tree.block?.isSome = true →
        List.Forall₂ (fun m text => ∀ n, m.2 = .multi n → m.2.builtin? = none →
          n.Written (Part.known parts) (Part.defines parts) text) (tree.mentioned name) d.typeTexts) := by
  have sound := (keyed_after config edits).sound fresh
  obtain ⟨parts, l, view, sources, -, -, -, shown⟩ := sound.build_shows ok
  have ofSources : Part.ofSources config (after config edits).sources.values = parts := by
    rw [← sources, Part.ofSources_map_source]
  have all : Part.Declared parts := Part.declared_of_sources fun part listed =>
    declared part.source (sources ▸ List.mem_map_of_mem listed)
  obtain ⟨part, listed, d, published, shows, -, -, sees⟩ := shown name key
  rw [ofSources]
  refine ⟨part.source, sources ▸ List.mem_map_of_mem listed, part.tree, d, part.parsed,
    ParseTree.mem_classNames_of_shown? shows, published, ParseTree.source_of_shown? shows, ?_⟩
  intro block
  obtain ⟨p, isBlock⟩ := Option.isSome_iff_exists.1 block
  have htree := ParseTree.eq_of_block? isBlock
  rw [htree] at shows ⊢
  apply ParseTree.forall₂_mentioned shows
  intro cls held m mentioned n open' plain
  rw [open'] at plain ⊢
  exact (sees (reusable_eq_zero fresh)).written all htree held (open' ▸ mentioned) plain

theorem open_names_take_first_definition_meadow :
    ((after {} meadow).published? "View").bind ClassDescriptor.superName = some "x:Base" := by
  have built : (after {} meadow).build.1.isOk = true := by decide +kernel
  obtain ⟨r, ok⟩ := Part.exists_ok built
  have declared : ∀ s ∈ (after {} meadow).sources.values, s.declaresClasses {} = true := by decide +kernel
  have key : "View" ∈ r.classes.keys := by
    have listed : ((after {} meadow).build.1.toOption.any fun r => r.classes.keys.contains "View")
        = true := by
      decide +kernel
    rw [ok] at listed
    exact List.contains_iff_mem.1 listed
  obtain ⟨s, member, tree, d, parsed, has, published, source, types⟩ :=
    open_names_take_first_definition {} meadow rfl declared r ok "View" key
  -- the other sources have no class of that name
  have checked : ∀ s ∈ [view, base "x", base "y", bundle], (s.tree? {}).all (fun tree =>
    !tree.classNames.contains "View" || tree.block?.isSome &&
      tree.mentioned "View" = [(.supertype, .multi ⟨["x", "y"], "Base"⟩)]) = true := by decide +kernel
  have checked := checked s member
  rw [parsed, Option.all_some, List.contains_iff_mem.2 has] at checked
  obtain ⟨block, mentioned⟩ := Bool.and_eq_true_iff.1 checked
  have types := types block
  rw [of_decide_eq_true mentioned] at types
  have first : (MultiName.candidates ⟨["x", "y"], "Base"⟩).find?
      (Part.defines (Part.ofSources {} (after {} meadow).sources.values)) = some ⟨"x", "Base"⟩ := by
        decide +kernel
  have known : Part.known (Part.ofSources {} (after {} meadow).sources.values) ⟨"x", "Base"⟩ = true := by
    decide +kernel
  have shown : ((after {} meadow).published? "View").any (fun d => d.superName.isSome) = true := by
    decide +kernel
  rw [published, Option.any_some] at shown
  obtain ⟨text, supertype⟩ := Option.isSome_iff_exists.1 shown
  rw [published, Option.bind_some, supertype]
  rw [ClassDescriptor.typeTexts, supertype] at types
  cases types with
  | cons written rest =>
    rcases (written _ rfl rfl).found _ first with here | ⟨unknown, -⟩
    · exact congrArg some here
    · exact (Bool.false_ne_true (unknown.symm.trans known)).elim

/-- The classes of all four sources are among their definitions and have names of their own.  The first
    candidate for the supertype of one of them that a source defines is `x:T`, the other name that a script
    gives a class.  The class is published with a supertype in another namespace. -/
theorem first_definition_overtaken :
    let sources := [seeker ⟨["x", "y"], "T"⟩, link "y", target "y" "T", twofold]
    (∀ s ∈ sources, s.declaresClasses {} = true ∧
      (s.tree? {}).all (fun tree => tree.classNames.Nodup) = true) ∧
    ((seeker ⟨["x", "y"], "T"⟩).tree? {}).map (·.mentioned "U")
    = some [(.supertype, .multi ⟨["x", "y"], "T"⟩)] ∧
    (MultiName.candidates ⟨["x", "y"], "T"⟩).find? (Part.defines (Part.ofSources {} sources))
    = some ⟨"x", "T"⟩ ∧
    (after {} (sources.map Edit.add)).cache.isEmpty = true ∧
    (shownBy sources "U").bind ClassDescriptor.superName = some "y:T" := by
  decide +kernel

end Compilation

end AbcBuild
