/-
Module: AbcBuild.Proofs.Success
Purpose: When a build succeeds, told by the sources and the settings alone, and what a build that fails tells
  of itself: it fails exactly if it reports an error, and its log holds what it reports.
Main exports: Part.Inherits, Part.cycles_eq_nil_iff, Source.Buildable, Compilation.build_succeeds_iff,
  Compilation.run_of_ok, Compilation.build_fails_for_its_errors
-/
import AbcBuild.Proofs.Gate
import AbcBuild.Proofs.Incremental
import AbcBuild.Proofs.Utf8

namespace AbcBuild

open Relation (TransGen)

variable {config : Config}

/-! ### Inheritance between parts -/

namespace Part

/-- One part inherits from another: the first candidate of a name that it inherits, of those that any part
    defines, is defined by the other. -/
def Inherits (parts : List (Part config)) (child ancestor : Part config) : Prop :=
  child ∈ parts ∧ ancestor ∈ parts ∧ child.source.name ≠ ancestor.source.name ∧
    ∃ n ∈ child.tree.dependencies.inheritance, ∃ q ∈ n.candidates.find? (defines parts),
      q ∈ ancestor.tree.topLevel

variable {parts : List (Part config)} {part : Part config}

section

variable (distinct : (parts.map fun part => part.source.name).Nodup) (clear : Clear parts)
include distinct clear

theorem ancestor?_eq_some_iff {q : QName} {i : Nat} :
    ancestor? parts q = some i ↔ ∃ part, parts[i]? = some part ∧ q ∈ part.tree.topLevel := by
  simp only [ancestor?, Option.bind_eq_some_iff, findIdx?_eq_some_iff distinct]
  constructor
  · rintro ⟨name, defined, part, held, rfl⟩
    obtain ⟨other, member, there, same⟩ := mem_of_definer defined
    have together : other = part := List.inj_on_of_nodup_map distinct member (List.mem_of_getElem? held) same
    exact ⟨part, held, together ▸ there⟩
  · rintro ⟨part, held, there⟩
    exact ⟨_, clear.definer (List.mem_of_getElem? held) there, part, held, rfl⟩

/-- An edge of the graph stands for inheritance between the parts at its ends. -/
theorem edge_graph_iff {a b : Nat} :
    (graph parts).Edge a b ↔
      ∃ ancestor child, parts[a]? = some ancestor ∧ parts[b]? = some child ∧
        Inherits parts child ancestor := by
  rw [graph, Context.edge_graphOf, List.mem_range]
  simp only [ancestry, List.mem_filterMap, Option.bind_eq_some_iff, ancestor?_eq_some_iff distinct clear]
  constructor
  · rintro ⟨bound, ⟨n, inherited, q, means, ancestor, held, there⟩, apart⟩
    rw [List.getElem?_eq_getElem bound] at inherited
    have held' := List.getElem?_eq_getElem bound
    refine ⟨ancestor, parts[b], held, held', List.getElem_mem bound, List.mem_of_getElem? held,
      fun same => ?_, n, inherited, q, ?_, there⟩
    · have here := (findIdx?_eq_some_iff distinct).2 ⟨_, held', same⟩
      have there := (findIdx?_eq_some_iff distinct).2 ⟨ancestor, held, rfl⟩
      cases here.symm.trans there
      exact apart rfl
    · exact (meaning_eq_some_iff (defines_iff.2 ⟨ancestor, List.mem_of_getElem? held, there⟩)).1 means
  · rintro ⟨ancestor, child, held, held', -, member, apart, n, inherited, q, found, there⟩
    refine ⟨(List.getElem?_eq_some_iff.1 held').1, ⟨n, ?_, q, ?_, ancestor, held, there⟩, ?_⟩
    · rwa [held']
    · exact (meaning_eq_some_iff (defines_iff.2 ⟨ancestor, member, there⟩)).2 found
    · rintro rfl
      cases held.symm.trans held'
      exact apart rfl

theorem closed_ancestry :
    ∀ b ∈ List.range parts.length, ∀ a ∈ ancestry parts b, a ∈ List.range parts.length := by
  intro b _ a inherited
  obtain ⟨n, -, led⟩ := List.mem_filterMap.1 inherited
  obtain ⟨q, -, there⟩ := Option.bind_eq_some_iff.1 led
  obtain ⟨part, held, -⟩ := (ancestor?_eq_some_iff distinct clear).1 there
  exact List.mem_range.2 (List.getElem?_eq_some_iff.1 held).1

/-- No cycle is found exactly if no part inherits from itself through others. -/
theorem cycles_eq_nil_iff :
    (graph parts).cycles = [] ↔ ∀ part, ¬TransGen (Inherits parts) part part := by
  rw [graph, Context.cycles_graphOf_eq_nil_iff (closed_ancestry distinct clear) List.nodup_range]
  constructor
  · -- a circle of parts is a circle of their places
    intro acyclic part loop
    let place (part : Part config) : Nat := parts.findIdx fun other => other.source.name = part.source.name
    have placed {part : Part config} (member : part ∈ parts) : parts[place part]? = some part := by
      obtain ⟨i, held⟩ := List.mem_iff_getElem?.1 member
      have found := (findIdx?_eq_some_iff distinct).2 ⟨part, held, rfl⟩
      exact (congrArg (parts[·]?) (List.findIdx?_eq_some_iff_findIdx_eq.1 found).2).trans held
    have circle : TransGen (Function.swap (graph parts).Edge) (place part) (place part) := by
      refine Relation.TransGen.lift place (fun child ancestor inherits => ?_) _ _ loop
      exact (edge_graph_iff distinct clear).2
        ⟨ancestor, child, placed inherits.2.1, placed inherits.1, inherits⟩
    exact acyclic _ (Relation.transGen_swap.1 circle)
  · -- a circle of places is a circle of the parts there
    intro acyclic i loop
    obtain ⟨j, edge, -⟩ := Relation.TransGen.head'_iff.1 loop
    obtain ⟨start, -⟩ := (edge_graph_iff distinct clear).1 edge
    have circle : TransGen (Function.swap (Inherits parts)) (parts[i]?.getD start)
        (parts[i]?.getD start) := by
      refine Relation.TransGen.lift (fun i => parts[i]?.getD start) (fun a b edge => ?_) _ _ loop
      obtain ⟨ancestor, child, held, held', inherits⟩ := (edge_graph_iff distinct clear).1 edge
      change Inherits parts (parts[b]?.getD start) (parts[a]?.getD start)
      rwa [held, held']
    exact acyclic _ (Relation.transGen_swap.1 circle)

end

end Part

/-! ### Styles and bundles -/

/-- Merging tables into one, one after the other, gives no conflict. -/
def StyleTable.Agree : StyleTable → List StyleTable → Prop
  | _, [] => True
  | merged, table :: rest => (addAll merged table).2 = none ∧ Agree (addAll merged table).1 rest

namespace Ledger

variable {parts : List (Part config)} {l : Ledger config}

/-- The bundles are those of parts. -/
def Owned (parts : List (Part config)) (l : Ledger config) : Prop :=
  ∀ key source, l.bundles.get? key = some source →
    ∃ part ∈ parts, ∃ file, part.tree = .properties file ∧ file.bundleKey = key ∧ part.source.name = source

/-- The class of a bundle bears its name, so two parts with one bundle define the same class. -/
theorem Owned.free (h : l.Owned parts) (clear : Part.Clear parts) {part : Part config}
    (member : part ∈ parts) {file : PropertiesFile} (htree : part.tree = .properties file) :
    (l.bundles.get? file.bundleKey).any (· ≠ part.source.name) = false := by
  rw [Bool.eq_false_iff, ne_eq, Option.any_eq_true]
  rintro ⟨source, found, other⟩
  obtain ⟨owner, listed, file', htree', key, rfl⟩ := h file.bundleKey source found
  have same : file'.className = file.className := by
    rw [PropertiesFile.className, PropertiesFile.className, key]
  have twice :=
    clear owner listed part member file.className (by rw [htree']; exact List.mem_singleton.2 same.symm)
    (by rw [htree]; exact List.mem_singleton.2 rfl)
  simp [twice] at other

/-- Parts without a clash of names are published, unless styles are in conflict and that is an error. -/
theorem exists_publishAll_iff (clear : Part.Clear parts) {rest : List (Part config)}
    (inside : ∀ part ∈ rest, part ∈ parts) (owned : l.Owned parts) :
    (∃ l', l.publishAll rest = some l') ↔
      (config.styleSeverity = .error →
        StyleTable.Agree l.styles (rest.map fun part => part.tree.styles)) := by
  induction rest generalizing l with
  | nil => simp [publishAll, StyleTable.Agree]
  | cons part rest ih =>
    have step : l.publishAll (part :: rest) = (l.publish part).bind fun l => l.publishAll rest := rfl
    have later (l' : Ledger config) := ih (l := l') fun part there => inside part (.tail _ there)
    rw [step, List.map_cons, StyleTable.Agree]
    cases htree : part.tree with
    | abc p =>
      rw [publish_abc htree, ← htree]
      cases conflict : (StyleTable.addAll l.styles part.tree.styles).2 with
      | none =>
        simp only [Option.isSome_none, Bool.false_and, Bool.false_eq_true, if_false,
          Option.bind_some, true_and]
        exact later { l with classes := l.known part, styles := _ } owned
      | some clash =>
        simp only [Option.isSome_some, Bool.true_and, decide_eq_true_eq, reduceCtorEq, false_and]
        split
        next severe => simp [severe]
        next mild =>
          simp only [Option.bind_some, mild, false_implies, iff_true]
          exact (later { l with classes := l.known part, styles := _ } owned).2 fun severe =>
            absurd severe mild
    | properties file =>
      have free := owned.free clear (inside part (.head _)) htree
      rw [publish_properties htree, if_neg (by rw [free]; exact Bool.false_ne_true), Option.bind_some]
      have merged : StyleTable.addAll l.styles (ParseTree.styles (.properties file)) = (l.styles, none) :=
        rfl
      rw [merged]
      simp only [true_and]
      refine later { l with classes := l.known part, bundles := _ } fun key source found => ?_
      rw [Table.get?_insert] at found
      split at found
      next here =>
        cases found
        exact ⟨part, inside part (.head _), file, htree, here, rfl⟩
      next => exact owned key source found

end Ledger

namespace Part

/-- The parts in the order in which a build works on them. -/
def inOrder (parts : List (Part config)) : List (Part config) := (graph parts).order.filterMap (parts[·]?)

theorem mem_of_mem_inOrder {parts : List (Part config)} {part : Part config} (h : part ∈ inOrder parts) :
    part ∈ parts := by
  obtain ⟨i, -, held⟩ := List.mem_filterMap.1 h
  exact List.mem_of_getElem? held

/-- What makes a build of parts. -/
theorem exists_builds_iff {parts : List (Part config)}
    (distinct : (parts.map fun part => part.source.name).Nodup) :
    (∃ l, Builds parts l) ↔ Clear parts ∧ (∀ part, ¬TransGen (Inherits parts) part part) ∧
      (config.styleSeverity = .error →
        StyleTable.Agree .empty ((inOrder parts).map fun part => part.tree.styles)) := by
  have publishes (clear : Clear parts) := Ledger.exists_publishAll_iff (l := {}) clear
    (fun _ placed => mem_of_mem_inOrder placed) fun key source found => by cases found
  constructor
  · rintro ⟨l, clear, acyclic, published⟩
    exact ⟨clear, (cycles_eq_nil_iff distinct clear).1 acyclic, (publishes clear).1 ⟨l, published⟩⟩
  · rintro ⟨clear, acyclic, styles⟩
    obtain ⟨l, published⟩ := (publishes clear).2 styles
    exact ⟨l, clear, (cycles_eq_nil_iff distinct clear).2 acyclic, published⟩

end Part

/-! ### Sources -/

namespace Source

variable {s : Source} {bytes : List UInt8}

theorem isSome_tree?_abc (mime : s.mime = Mime.abc) (content : s.content = .ok bytes) :
    (s.tree? config).isSome = true ↔ bytes ≠ [] ∧ ∃ p, Program.decode bytes = .ok p := by
  rw [tree?, if_pos mime, AbcFrontend.bytecode, read, content]
  cases bytes with
  | nil => simp [Except.toOption]
  | cons first rest =>
    cases decoded : Program.decode (first :: rest) with
    | error | ok => simp [Except.toOption, decoded]

theorem isSome_tree?_properties (mime : s.mime = Mime.properties) (content : s.content = .ok bytes) :
    (s.tree? config).isSome = true ↔
      ∃ text, bytes = Utf8.encode text ∧ ∃ entries, Properties.parse text = .ok entries := by
  have other : s.mime ≠ Mime.abc := by
    rw [mime]
    decide
  rw [tree?, if_neg other, if_pos mime, BundleFrontend.readEntries, read, content, Option.isSome_map]
  simp only
  constructor
  · intro made
    split at made
    next => cases made
    next text decoded =>
      split at made
      next => cases made
      next entries parsed => exact ⟨text, (Utf8.encode_of_decode decoded).symm, entries, parsed⟩
  · rintro ⟨text, rfl, entries, parsed⟩
    simp [Utf8.decode_encode, parsed, Except.toOption]

theorem mime_of_isSome_tree? (h : (s.tree? config).isSome = true) :
    (s.mime = Mime.abc ∨ s.mime = Mime.properties) ∧ ∃ bytes, s.content = .ok bytes := by
  have readable : ∃ bytes, s.content = .ok bytes := by
    cases content : s.content with
    | error cause =>
      simp [tree?, AbcFrontend.bytecode, BundleFrontend.readEntries, read, content, Except.toOption] at h
    | ok bytes => exact ⟨bytes, rfl⟩
  refine ⟨?_, readable⟩
  unfold tree? at h
  split at h
  next mime => exact .inl mime
  next =>
    split at h
    next mime => exact .inr mime
    next => cases h

/-- What the sources of a build have to be like. -/
structure Buildable (config : Config) (sources : List Source) : Prop where
  supported : ∀ s ∈ sources, s.mime = Mime.abc ∨ s.mime = Mime.properties
  readable : ∀ s ∈ sources, ∃ bytes, s.content = .ok bytes
  blocks : ∀ s ∈ sources, s.mime = Mime.abc → ∀ bytes, s.content = .ok bytes →
    bytes ≠ [] ∧ ∃ p, Program.decode bytes = .ok p
  bundles : ∀ s ∈ sources, s.mime = Mime.properties → ∀ bytes, s.content = .ok bytes →
    ∃ text, bytes = Utf8.encode text ∧ ∃ entries, Properties.parse text = .ok entries
  /-- No name is defined by two sources. -/
  clear : Part.Clear (Part.ofSources config sources)
  /-- No source inherits from itself through others. -/
  acyclic : ∀ part, ¬TransGen (Part.Inherits (Part.ofSources config sources)) part part
  /-- If conflicts are errors, merging the styles of the sources in order gives none. -/
  styles : config.styleSeverity = .error →
    StyleTable.Agree .empty ((Part.inOrder (Part.ofSources config sources)).map fun part => part.tree.styles)

theorem Buildable.parsed {sources : List Source} (h : Buildable config sources) {s : Source}
    (member : s ∈ sources) :
    (s.tree? config).isSome = true := by
  obtain ⟨bytes, content⟩ := h.readable s member
  rcases h.supported s member with mime | mime
  · exact (isSome_tree?_abc mime content).2 (h.blocks s member mime bytes content)
  · exact (isSome_tree?_properties mime content).2 (h.bundles s member mime bytes content)

/-- Sources can be built exactly if they are those of parts that make a build. -/
theorem buildable_iff {sources : List Source} (distinct : (sources.map Source.name).Nodup) :
    Buildable config sources ↔
      ∃ (parts : List (Part config)) (l : Ledger config), parts.map Part.source = sources ∧
        Part.Builds parts l := by
  have names (parts : List (Part config)) (same : parts.map Part.source = sources) :
      (parts.map fun part => part.source.name).Nodup := by
    rw [← same, List.map_map] at distinct
    exact distinct
  constructor
  · intro h
    rcases Part.exists_of_sources config sources with ⟨parts, same⟩ | ⟨s, member, unread⟩
    · have clear := h.clear
      have acyclic := h.acyclic
      have styles := h.styles
      rw [← same, Part.ofSources_map_source] at clear acyclic styles
      obtain ⟨l, builds⟩ := (Part.exists_builds_iff (names parts same)).2 ⟨clear, acyclic, styles⟩
      exact ⟨parts, l, same, builds⟩
    · have parsed := h.parsed member
      rw [unread] at parsed
      cases parsed
  · rintro ⟨parts, l, same, builds⟩
    obtain ⟨clear, acyclic, styles⟩ := (Part.exists_builds_iff (names parts same)).1 ⟨l, builds⟩
    have parsed : ∀ s ∈ sources, (s.tree? config).isSome = true := by
      intro s member
      rw [← same] at member
      obtain ⟨part, -, rfl⟩ := List.mem_map.1 member
      rw [part.parsed]
      rfl
    refine ⟨fun s member => (mime_of_isSome_tree? (parsed s member)).1,
      fun s member => (mime_of_isSome_tree? (parsed s member)).2,
      fun s member mime bytes content => (isSome_tree?_abc mime content).1 (parsed s member),
      fun s member mime bytes content => (isSome_tree?_properties mime content).1 (parsed s member),
      ?_, ?_, ?_⟩
    all_goals rw [← same, Part.ofSources_map_source]
    · exact clear
    · exact acyclic
    · exact styles

end Source

/-! ### Compilations without a cache -/

namespace Compilation

/-- A build that takes nothing over succeeds exactly if there are sources and they can be built. -/
theorem build_succeeds_iff (config : Config) (edits : List Edit)
    (fresh : (after config edits).cache.isEmpty = true) :
    (∃ r, (after config edits).build.1 = .ok r) ↔
      (after config edits).sources.isEmpty = false ∧
        Source.Buildable config (after config edits).sources.values := by
  have sound := (keyed_after config edits).sound fresh
  have distinct : ((after config edits).sources.values.map Source.name).Nodup := by
    rw [sound.names]
    exact sound.distinct
  rw [sound.build_ok_iff, Source.buildable_iff distinct]

/-- Conflicts between styles are errors. -/
def severe : Config := { styleSeverity := .error }

/-- A class with a supertype in another source, and a bundle. -/
def gallery : List Edit := [.add view, .add (base "y"), .add bundle]

theorem build_succeeds_iff_gallery : (after severe gallery).cache.isEmpty = true ∧
    Source.Buildable severe (after severe gallery).sources.values := by
  have fresh : (after severe gallery).cache.isEmpty = true := rfl
  have built : (after severe gallery).build.1.isOk = true := by decide +kernel
  exact ⟨fresh, ((build_succeeds_iff severe gallery fresh).1 (Part.exists_ok built)).2⟩

end Compilation

/-! ### Builds that fail -/

theorem Context.hasErrors_eq_false_iff (cx : Context) : cx.hasErrors = false ↔ cx.log.errors = 0 := by
  rw [← Bool.not_eq_true, Context.hasErrors, Log.hasErrors_iff, Nat.pos_iff_ne_zero, not_not]

namespace Compilation

variable (c : Compilation)

theorem run_of_ok {c : Compilation} {r : BuildReport} (h : c.build.1 = .ok r) :
    ∃ cx, (c.scheduler.run c.context).2 = cx ∧ cx.hasErrors = false ∧ c.build = (.ok r, { c with
      store := cx.startGeneration.store, events := c.events ++ cx.events, cache := cacheOf cx.sources }) ∧
      r = c.reportOf cx := by
  rcases c.build_outcome with ⟨-, heq⟩ | ⟨-, cx, run, ⟨-, heq⟩ | ⟨ok, heq⟩⟩
  · rw [heq] at h
    cases h
  · rw [heq] at h
    cases h
  · rw [heq] at h
    cases h
    exact ⟨cx, run, ok, heq, rfl⟩

theorem log_context : c.context.log = { showWarnings := c.config.showWarnings } := by
  obtain ⟨retained, heq⟩ := c.context_eq
  rw [heq]
  rfl

theorem tallied_run (plain : c.scheduler.Plain) :
    (c.scheduler.run c.context).2.log.Tallied ∧
      (c.scheduler.run c.context).2.log.showWarnings = c.config.showWarnings := by
  have grows := (Scheduler.run_advances plain c.context).log
  rw [log_context] at grows
  exact ⟨Log.Tallied.grows ⟨rfl, fun _ => rfl⟩ grows, grows.showWarnings⟩

theorem build_noSources_iff : c.build.1 = .error .noSources ↔ c.sources.isEmpty = true := by
  rcases c.build_outcome with ⟨empty, heq⟩ | ⟨filled, cx, -, ⟨-, heq⟩ | ⟨-, heq⟩⟩
  · simp [heq, empty]
  · simp [heq, filled]
  · simp [heq, filled]

theorem build_ok_iff_errors :
    (∃ r, c.build.1 = .ok r) ↔ c.sources.isEmpty = false ∧ (c.scheduler.run c.context).2.log.errors = 0 := by
  rw [← Context.hasErrors_eq_false_iff]
  rcases c.build_outcome with ⟨empty, heq⟩ | ⟨filled, cx, rfl, ⟨failed, heq⟩ | ⟨ok, heq⟩⟩
  · simp [heq, empty]
  · simp [heq, failed]
  · simp [heq, filled, ok]

theorem errors_of_failed {c : Compilation} (plain : c.scheduler.Plain) {errors : Nat}
    {diagnostics : List Diagnostic} (h : c.build.1 = .error (.failed errors diagnostics)) :
    1 ≤ errors ∧ errors = (diagnostics.filter fun d => d.severity = .error).length := by
  have tallied := (c.tallied_run plain).1
  rcases c.build_outcome with ⟨-, heq⟩ | ⟨-, cx, rfl, ⟨failed, heq⟩ | ⟨-, heq⟩⟩
  · rw [heq] at h
    cases h
  · rw [heq] at h
    cases h
    exact ⟨(Log.hasErrors_iff _).1 failed, tallied.errors⟩
  · rw [heq] at h
    cases h

theorem diagnostics_of_ok {c : Compilation} (plain : c.scheduler.Plain) {r : BuildReport}
    (h : c.build.1 = .ok r) :
    (∀ d ∈ r.diagnostics, d.severity ≠ .error) ∧
      (c.config.showWarnings = false → ∀ d ∈ r.diagnostics, d.severity ≠ .warning) := by
  obtain ⟨tallied, shown⟩ := c.tallied_run plain
  obtain ⟨cx, rfl, ok, -, rfl⟩ := run_of_ok h
  have none := tallied.errors
  rw [(Context.hasErrors_eq_false_iff _).1 ok, eq_comm, List.length_eq_zero_iff] at none
  refine ⟨fun d member error => ?_, fun hidden d member warning => ?_⟩
  · exact List.filter_eq_nil_iff.1 none d member (decide_eq_true error)
  · exact List.filter_eq_nil_iff.1 (tallied.warnings (shown.trans hidden)) d member (decide_eq_true warning)

/-- A build fails for the errors that it reports, and it tells their number.  A build that succeeds reports
    no error, and no warning unless they are asked for.  It succeeds exactly if there are sources and the run
    reports no error, and any run is complete exactly if it ends without one. -/
theorem build_fails_for_its_errors (c : Compilation) (plain : c.scheduler.Plain) :
    (c.build.1 = .error .noSources ↔ c.sources.isEmpty = true) ∧
      (∀ errors diagnostics, c.build.1 = .error (.failed errors diagnostics) →
        1 ≤ errors ∧ errors = (diagnostics.filter fun d => d.severity = .error).length) ∧
      (∀ r, c.build.1 = .ok r → (∀ d ∈ r.diagnostics, d.severity ≠ .error) ∧
        (c.config.showWarnings = false → ∀ d ∈ r.diagnostics, d.severity ≠ .warning)) ∧
      ((∃ r, c.build.1 = .ok r) ↔
        c.sources.isEmpty = false ∧ (c.scheduler.run c.context).2.log.errors = 0) ∧
      ∀ (s : Scheduler) (cx : Context), (s.run cx).1.completed = true ↔ (s.run cx).2.log.errors = 0 := by
  refine ⟨c.build_noSources_iff, fun errors diagnostics => errors_of_failed plain, fun r =>
    diagnostics_of_ok plain, c.build_ok_iff_errors, fun s cx => ?_⟩
  rw [s.run_completed, Bool.not_eq_true', Context.hasErrors_eq_false_iff]

/-- A block that cannot be decoded, after a build that left units behind. -/
def damaged : List Edit :=
  [.add bundle, .add (base "x"), .build, .add ⟨"broken.abc", "", Mime.abc, .ok [16, 0]⟩,
   .add ⟨"empty.abc", "", Mime.abc, .ok []⟩]

theorem build_fails_for_its_errors_damaged :
    (after {} damaged).cache.isEmpty = false ∧ (after {} damaged).scheduler.Plain ∧
    ∃ errors diagnostics, (after {} damaged).build.1 = .error (.failed errors diagnostics) ∧ 1 ≤ errors ∧
      errors = (diagnostics.filter fun d => d.severity = .error).length := by
  have plain : (after {} damaged).scheduler.Plain :=
    (keyed_after {} damaged).scheduler ▸ Scheduler.plain_standard
  have kept : (after {} damaged).cache.isEmpty = false := by decide +kernel
  have filled : (after {} damaged).sources.isEmpty = false := by decide +kernel
  have failed : (after {} damaged).build.1.isOk = false := by decide +kernel
  obtain ⟨noSources, counted, -⟩ := build_fails_for_its_errors (after {} damaged) plain
  refine ⟨kept, plain, ?_⟩
  cases heq : (after {} damaged).build.1 with
  | ok r =>
    rw [heq] at failed
    cases failed
  | error e =>
    cases e with
    | noSources => cases filled.symm.trans (noSources.1 heq)
    | failed errors diagnostics => exact ⟨errors, diagnostics, rfl, counted errors diagnostics heq⟩

end Compilation

end AbcBuild
