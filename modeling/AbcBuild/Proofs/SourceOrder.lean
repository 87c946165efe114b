/-
Module: AbcBuild.Proofs.SourceOrder
Purpose: Builds of the same sources in two orders.  They succeed together and publish the same classes, up to
  how some references through several namespaces are written.
Main exports: ParseTree.ShowsAlike, Part.scope_perm, Compilation.builds_agree_in_any_order,
  Compilation.source_order_shows
-/
import AbcBuild.Proofs.Report

namespace AbcBuild

variable {config : Config}

/-! ### Descriptors of one class -/

namespace ParseTree

/-- What the class mentions that a source publishes under a name. -/
def mentioned (name : String) : ParseTree → List (Role × Name)
  | .abc p => (p.lastNamed? name).elim [] fun placed => placed.2.mentions
  | .properties _ => []

/-- Both descriptors show the class that a source publishes under a name, in scopes that write those of its
    references alike that pass the test, and give slots of such types the same values.  So the descriptors
    differ in nothing but the other references. -/
def ShowsAlike (test : Name → Bool) (source name : String) (d d' : ClassDescriptor) (t : ParseTree) : Prop :=
  ∃ s s' : Scope, t.shown? s source name = some d ∧ t.shown? s' source name = some d' ∧
    ∀ m ∈ t.mentioned name, test m.2 = true →
      s.write m.1 m.2 = s'.write m.1 m.2 ∧ (m.1 = .slot → s.value (some m.2) = s'.value (some m.2))

/-- What is mentioned is mentioned by a class of a block. -/
theorem exists_of_mentioned {t : ParseTree} {name : String} {m : Role × Name} (h : m ∈ t.mentioned name) :
    ∃ p, t = .abc p ∧ ∃ c ∈ p.classes, m ∈ c.mentions := by
  cases t with
  | abc p =>
    rw [mentioned] at h
    cases last : p.lastNamed? name with
    | none =>
      rw [last] at h
      cases h
    | some placed =>
      rw [last] at h
      exact ⟨p, rfl, placed.2, (Program.mem_of_lastNamed? last).1, h⟩
  | properties file => cases h

theorem ShowsAlike.eq {t : ParseTree} {test : Name → Bool} {source name : String} {d d' : ClassDescriptor}
    (h : t.ShowsAlike test source name d d') (all : ∀ m ∈ t.mentioned name, test m.2 = true) : d = d' := by
  obtain ⟨s, s', shown, shown', alike⟩ := h
  cases t with
  | abc p =>
    obtain ⟨⟨index, c⟩, last, rfl⟩ := Option.map_eq_some_iff.1 shown
    obtain ⟨⟨index', c'⟩, last', rfl⟩ := Option.map_eq_some_iff.1 shown'
    cases last.symm.trans last'
    have mentioned : mentioned name (.abc p) = c.mentions := by
      rw [ParseTree.mentioned, last, Option.elim_some]
    rw [mentioned] at alike all
    refine Program.describe_congr (fun m hm => (alike m hm (all m hm)).1) fun n hn => ?_
    exact (alike _ hn (all _ hn)).2 rfl
  | properties file => exact Option.some.inj (shown.symm.trans shown')

end ParseTree

namespace Part

variable {parts parts' : List (Part config)} {part : Part config} {s : Scope}

theorem Sees.write_mentioned (sees : part.Sees (known parts) parts s) (declared : Declared parts)
    {name : String} {m : Role × Name} (hm : m ∈ part.tree.mentioned name)
    (unambiguous : m.2.isUnambiguous (known parts) (defines parts) = true) :
    s.write m.1 m.2 = (scope parts).write m.1 m.2 ∧
      (m.1 = .slot → s.value (some m.2) = (scope parts).value (some m.2)) := by
  obtain ⟨p, htree, c, hc, mentioned⟩ := ParseTree.exists_of_mentioned hm
  exact sees.write_unambiguous declared htree hc mentioned unambiguous

/-! ### Parts in two orders -/

section

variable (h : parts.Perm parts')
include h

theorem known_perm : known parts = known parts' := by
  funext q
  exact Bool.eq_iff_iff.2 (by simp only [known, List.any_eq_true, h.mem_iff])

theorem defines_perm : defines parts = defines parts' := by
  funext q
  exact Bool.eq_iff_iff.2 (by simp only [defines_iff, h.mem_iff])

theorem scope_perm : scope parts = scope parts' := by
  simp only [scope, known_perm h, defines_perm h]

theorem clear_perm : Clear parts ↔ Clear parts' := by
  simp only [Clear, h.mem_iff]

theorem inherits_perm : Inherits parts = Inherits parts' := by
  funext child ancestor
  simp only [Inherits, h.mem_iff, defines_perm h]

end

/-- Unless conflicts between styles are errors, parts make a build in one order if they do in another. -/
theorem exists_builds_perm (mild : config.styleSeverity ≠ .error)
    (distinct : (parts.map fun part => part.source.name).Nodup) (h : parts.Perm parts') :
    (∃ l, Builds parts l) ↔ ∃ l, Builds parts' l := by
  rw [exists_builds_iff distinct, exists_builds_iff ((h.map _).nodup_iff.1 distinct), clear_perm h,
    inherits_perm h]
  simp only [mild, false_implies, and_true]

/-- Descriptors of one class from two orders, each written in a scope that its order gives. -/
theorem showsAlike_of_perm (h : parts.Perm parts') (declared : Declared parts) {s' : Scope}
    (sees : part.Sees (known parts) parts s) (sees' : part.Sees (known parts') parts' s')
    {name : String} {d d' : ClassDescriptor} (shows : part.tree.shown? s part.source.name name = some d)
    (shows' : part.tree.shown? s' part.source.name name = some d') :
    part.tree.ShowsAlike (Name.isUnambiguous (known parts) (defines parts)) part.source.name name d d' := by
  refine ⟨s, s', shows, shows', fun m hm unambiguous => ?_⟩
  have declared' : Declared parts' := fun part listed => declared part (h.mem_iff.2 listed)
  have written := sees.write_mentioned declared hm unambiguous
  rw [known_perm h, defines_perm h] at unambiguous
  have written' := sees'.write_mentioned declared' hm unambiguous
  rw [scope_perm h] at written
  exact ⟨written.1.trans written'.1.symm, fun slot => (written.2 slot).trans (written'.2 slot).symm⟩

/-- The parts of sources in another order. -/
theorem exists_perm_of_sources {sources : List Source} (h : (parts.map Part.source).Perm sources) :
    ∃ parts' : List (Part config), parts'.map Part.source = sources ∧ parts.Perm parts' := by
  have along : List.Forall₂ (fun s (part : Part config) => s = part.source)
      (parts.map Part.source) parts := by
    rw [List.forall₂_map_left_iff, List.forall₂_same]
    exact fun _ _ => rfl
  obtain ⟨parts', along', perm⟩ := List.perm_comp_forall₂ h.symm along
  have same : List.Forall₂ Eq sources (parts'.map Part.source) := List.forall₂_map_right_iff.2 along'
  rw [List.forall₂_eq_eq_eq] at same
  exact ⟨parts', same.symm, perm.symm⟩

end Part

namespace Compilation

variable {c c' : Compilation} {past past' : List (List Source)} {rest rest' : List Edit}

theorem Keyed.parts_distinct (h : c.Keyed config) {parts : List (Part config)}
    (sources : parts.map Part.source = c.sources.values) :
    (parts.map fun part => part.source.name).Nodup := by
  have names := h.names
  rw [← sources, List.map_map] at names
  exact names ▸ h.distinct

/-- Sources that make a build make one in any order. -/
theorem Sound.build_ok_perm (h : c.Sound config past rest) (h' : c'.Sound config past' rest')
    (mild : config.styleSeverity ≠ .error) (perm : c.sources.values.Perm c'.sources.values) :
    (∃ r, c.build.1 = .ok r) → ∃ r, c'.build.1 = .ok r := by
  rw [h.build_ok_iff, h'.build_ok_iff]
  rintro ⟨filled, parts, l, sources, builds⟩
  obtain ⟨parts', sources', reordered⟩ := Part.exists_perm_of_sources (sources ▸ perm)
  obtain ⟨l', builds'⟩ := (Part.exists_builds_perm mild (h.parts_distinct sources) reordered).1 ⟨l, builds⟩
  refine ⟨?_, parts', l', sources', builds'⟩
  have length := perm.length_eq
  rw [Table.values, Table.values, List.length_map, List.length_map] at length
  rw [Table.isEmpty, List.isEmpty_eq_false_iff, ← List.length_pos_iff] at filled ⊢
  exact length ▸ filled

/-- Builds without a cache of the same sources in two orders, where the classes of each block are among its
    definitions and conflicts between styles are no errors: both succeed or both fail.  If they succeed, they
    give the same bytecode and publish the same class names.  Under a name that classes of one source only
    have, both descriptors show the same class, with all unambiguous references written alike.  They are
    equal if all references of the class are unambiguous. -/
theorem builds_agree_in_any_order (config : Config) (edits edits' : List Edit)
    (fresh : (after config edits).cache.isEmpty = true) (fresh' : (after config edits').cache.isEmpty = true)
    (perm : (after config edits).sources.values.Perm (after config edits').sources.values)
    (mild : config.styleSeverity ≠ .error)
    (declared : ∀ s ∈ (after config edits).sources.values, s.declaresClasses config = true) :
    ((∃ r, (after config edits).build.1 = .ok r) ↔ ∃ r, (after config edits').build.1 = .ok r) ∧
      ∀ r r', (after config edits).build.1 = .ok r → (after config edits').build.1 = .ok r' →
        (∀ name, r.bytecode.get? name = r'.bytecode.get? name) ∧
        (∀ name, name ∈ r.classes.keys ↔ name ∈ r'.classes.keys) ∧
        ∀ s ∈ (after config edits).sources.values, ∀ tree, s.tree? config = some tree →
          ∀ name ∈ tree.classNames, (∀ s' ∈ (after config edits).sources.values, ∀ tree',
            s'.tree? config = some tree' → name ∈ tree'.classNames → s' = s) →
          ∃ d d', (after config edits).published? name = some d ∧
            (after config edits').published? name = some d' ∧
            let parts := Part.ofSources config (after config edits).sources.values
            let unambiguous := Name.isUnambiguous (Part.known parts) (Part.defines parts)
            tree.ShowsAlike unambiguous s.name name d d' ∧
              ((∀ m ∈ tree.mentioned name, unambiguous m.2 = true) → d = d') := by
  have sound := (keyed_after config edits).sound fresh
  have sound' := (keyed_after config edits').sound fresh'
  refine ⟨⟨sound.build_ok_perm sound' mild perm, sound'.build_ok_perm sound mild perm.symm⟩,
    fun r r' ok ok' => ?_⟩
  obtain ⟨parts, l, view, sources, builds, bytecode, keys, shown⟩ := sound.build_shows ok
  obtain ⟨parts', l', view', sources', builds', bytecode', keys', shown'⟩ := sound'.build_shows ok'
  have reordered : parts.Perm parts' := by
    obtain ⟨parts'', sources'', reordered⟩ := Part.exists_perm_of_sources (sources ▸ perm)
    cases Part.eq_of_sources (sources''.trans sources'.symm)
    exact reordered
  have all : Part.Declared parts := Part.declared_of_sources fun part member =>
    declared part.source (sources ▸ List.mem_map_of_mem member)
  refine ⟨fun name => ?_, fun name => ?_, fun s member tree parsed name held only => ?_⟩
  · rw [bytecode, bytecode']
    refine Table.get?_ofList_perm ?_ (reordered.map _) name
    rw [List.map_map]
    exact sound.parts_distinct sources
  · rw [keys, keys', builds.mem_keys, builds'.mem_keys]
    simp only [reordered.mem_iff]
  · have owner (part : Part config) (listed : part ∈ parts) (has : name ∈ part.tree.classNames) :
        part = ⟨s, tree, parsed⟩ :=
      Part.ext_source (only part.source (sources ▸ List.mem_map_of_mem listed) part.tree part.parsed has)
    obtain ⟨part, listed, source⟩ : ∃ part ∈ parts, part.source = s := List.mem_map.1 (sources ▸ member)
    have here : part = ⟨s, tree, parsed⟩ := Part.ext_source source
    subst here
    have key : name ∈ r.classes.keys := keys ▸ (builds.mem_keys name).2 ⟨_, listed, held⟩
    have key' : name ∈ r'.classes.keys :=
      keys' ▸ (builds'.mem_keys name).2 ⟨_, reordered.mem_iff.1 listed, held⟩
    obtain ⟨part, listed, d, published, shows, -, -, sees⟩ := shown name key
    obtain ⟨part', listed', d', published', shows', -, -, sees'⟩ := shown' name key'
    cases owner part listed (ParseTree.mem_classNames_of_shown? shows)
    cases owner part' (reordered.mem_iff.2 listed') (ParseTree.mem_classNames_of_shown? shows')
    have ofSources : Part.ofSources config (after config edits).sources.values = parts := by
      rw [← sources, Part.ofSources_map_source]
    refine ⟨d, d', published, published', ?_⟩
    rw [ofSources]
    have alike := Part.showsAlike_of_perm reordered all (sees (reusable_eq_zero fresh))
      (sees' (reusable_eq_zero fresh')) shows shows'
    exact ⟨alike, alike.eq⟩

/-- The same sources in two orders. -/
def meadow : List Edit := [.add view, .add (base "x"), .add (base "y"), .add bundle]

theorem builds_agree_in_any_order_meadow : ∃ d,
    (after {} meadow).published? "View" = some d ∧ (after {} meadow.reverse).published? "View" = some d := by
  have sources : (after {} meadow).sources.values = [view, base "x", base "y", bundle] := rfl
  have perm : (after {} meadow).sources.values.Perm (after {} meadow.reverse).sources.values :=
    (List.reverse_perm [view, base "x", base "y", bundle]).symm
  have declared : ∀ s ∈ (after {} meadow).sources.values, s.declaresClasses {} = true := by decide +kernel
  obtain ⟨both, agree⟩ :=
    builds_agree_in_any_order {} meadow meadow.reverse rfl rfl perm (by decide) declared
  have built : (after {} meadow).build.1.isOk = true := by decide +kernel
  obtain ⟨r, ok⟩ := Part.exists_ok built
  obtain ⟨r', ok'⟩ := both.1 ⟨r, ok⟩
  obtain ⟨-, -, shown⟩ := agree r r' ok ok'
  let parts : List (Part {}) := Part.ofSources {} [view, base "x", base "y", bundle]
  have checked : ((view.tree? {}).any fun tree => tree.classNames.contains "View" &&
      (tree.mentioned "View").all fun m => m.2.isUnambiguous (Part.known parts) (Part.defines parts))
      = true := by
    decide +kernel
  obtain ⟨tree, parsed, holds⟩ := (Option.any_eq_true _ _).1 checked
  obtain ⟨has, unambiguous⟩ := Bool.and_eq_true_iff.1 holds
  have only : ∀ s ∈ (after {} meadow).sources.values, ∀ tree', s.tree? {} = some tree' →
      "View" ∈ tree'.classNames → s = view := by
    intro s member tree' parsed' has'
    rw [sources] at member
    have others : ([base "x", base "y", bundle].any fun s =>
      (s.tree? {}).any (·.classNames.contains "View")) = false := by decide +kernel
    rcases List.mem_cons.1 member with same | other
    · exact same
    · rw [List.any_eq_false] at others
      exact (others s other ((Option.any_eq_true _ _).2 ⟨tree', parsed', List.contains_iff_mem.2 has'⟩)).elim
  have member : view ∈ (after {} meadow).sources.values := by
    rw [sources]
    exact List.mem_cons_self ..
  obtain ⟨d, d', published, published', -, same⟩ :=
    shown view member tree parsed "View" (List.contains_iff_mem.1 has) only
  cases same (List.all_eq_true.1 unambiguous)
  exact ⟨d, published, published'⟩

/-! ### Orders that show -/

/-- A class with a member in a namespace. -/
def memberIn (name space : String) : Abc.ClassSpec :=
  (Abc.ClassSpec.named name).addMember (.slot "m" (.customSpace space) none none false false [])

/-- A class with an open supertype.  By the namespace of its member it meets the unit below. -/
def seeker (supertype : MultiName) : Source :=
  classSource "u.abc" ((memberIn "U" "a:N").extendingMulti supertype)

/-- A unit that meets another by the namespace of its member. -/
def link (space : String) : Source := classSource "a.abc" (memberIn "a:N" (space ++ ":N"))

/-- Two classes in a namespace. -/
def target (space name : String) : Source :=
  ⟨space ++ ".abc", "", Mime.abc, .ok (Abc.File.ofClasses
    [Abc.ClassSpec.named (space ++ ":N"), Abc.ClassSpec.named (space ++ ":" ++ name)]).encode⟩

/-- A class that a script defines twice, once by another name. -/
def twofold : Source :=
  let file := Abc.File.ofClasses [Abc.ClassSpec.named "x:S", Abc.ClassSpec.named "x:T"]
  let first (t : Abc.TraitInfo) : Abc.TraitInfo :=
    match t.data with
    | .classRef slot _ => { t with data := .classRef slot 0 }
    | _ => t
  let scripts := file.scripts.map fun script => { script with traits := script.traits.map first }
  ⟨"x.abc", "", Mime.abc, .ok ({ file with
    instances := file.instances.take 1, classes := file.classes.take 1, scripts :=
    scripts } : Abc.File).encode⟩

/-- What a build of these sources publishes under a name. -/
def shownBy (sources : List Source) (name : String) : Option ClassDescriptor :=
  (after {} (sources.map Edit.add)).published? name

/-- A bundle, and a class of the same name as it is written. -/
def namesakes : List Source :=
  [⟨"a:b.properties", "en", Mime.properties, .ok []⟩,
    classSource "b.abc" (Abc.ClassSpec.named "en$a:b_properties")]

/-- The order of sources shows: in a supertype that may be a builtin type; in one that a script defines by a
    name that its class does not bear; in the class that is published if the names of a class and of a bundle
    are written alike. -/
theorem source_order_shows :
    (∀ s ∈ [seeker ⟨["x", ""], "Object"⟩, link "x", target "x" "Object", seeker ⟨["x", "y"], "T"⟩, link "y",
      target "y" "T", twofold] ++ namesakes, s.declaresClasses {} = true) ∧
    ((shownBy [seeker ⟨["x", ""], "Object"⟩, link "x", target "x" "Object"] "U").bind
        ClassDescriptor.superName = some "x:Object" ∧
      (shownBy [link "x", seeker ⟨["x", ""], "Object"⟩, target "x" "Object"] "U").bind
        ClassDescriptor.superName = some "Object") ∧
    ((shownBy [seeker ⟨["x", "y"], "T"⟩, link "y", target "y" "T", twofold] "U").bind
        ClassDescriptor.superName = some "y:T" ∧
      (shownBy [link "y", seeker ⟨["x", "y"], "T"⟩, target "y" "T", twofold] "U").bind
        ClassDescriptor.superName = some "x:T") ∧
    ((shownBy namesakes "en$a:b_properties").bind ClassDescriptor.source = some "a:b.properties" ∧
      (shownBy namesakes.reverse "en$a:b_properties").bind ClassDescriptor.source = some "b.abc") := by
  decide +kernel

end Compilation

end AbcBuild
