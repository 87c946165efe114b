/-
Module: AbcBuild.Proofs.Contribution
Purpose: What a source contributes to a build, told by the source and the settings alone: what it defines,
  what it depends on, what its frame knows by itself, and what it sees of the other sources.
Main exports: Source.tree?, Part, Part.Covers, Part.Sees, Basis
-/
import AbcBuild.Proofs.Taking
import AbcBuild.Schedule

namespace AbcBuild

/-! ### Contributions -/

/-- The bytes that a front end parses are those of the source, of which there is at least one. -/
theorem AbcFrontend.bytecode_eq_ok {source : Source} {bytes : List UInt8} (h : bytecode source = .ok bytes) :
    source.content = .ok bytes ∧ bytes ≠ [] := by
  unfold bytecode Source.read at h
  cases content : source.content with
  | error cause => simp [content] at h
  | ok found =>
    simp only [content] at h
    split at h
    next => cases h
    next filled =>
      cases h
      exact ⟨rfl, fun none => filled (List.isEmpty_iff.2 none)⟩

/-- What a source is parsed to, if it can be. -/
def Source.tree? (config : Config) (s : Source) : Option ParseTree :=
  if s.mime = Mime.abc then
    (AbcFrontend.bytecode s).toOption.bind fun bytes => (Program.decode bytes).toOption.map ParseTree.abc
  else if s.mime = Mime.properties then
    (BundleFrontend.readEntries s).toOption.map fun entries =>
      .properties
        { locale := BundleFrontend.localeOf s config.locale
          bundle := s.shortName
          entries := entries }
  else none

/-- A source that can be parsed, with its tree. -/
structure Part (config : Config) where
  source : Source
  tree : ParseTree
  parsed : source.tree? config = some tree

namespace ParseTree

def frontend : ParseTree → Frontend
  | .abc _ => { format := .abc }
  | .properties _ => { format := .properties }

def topLevel : ParseTree → List QName
  | .abc p => p.topLevel
  | .properties file => [file.className]

def dependencies : ParseTree → Dependencies
  | .abc p => ({} : Dependencies).extend p.dependencies
  | .properties _ =>
    ({} : Dependencies).extend { inheritance := [.qualified (QName.parse BundleFrontend.bundleClass)] }

def styles : ParseTree → StyleTable
  | .abc p => (StyleTable.addList .empty p.styles).1
  | .properties _ => .empty

/-- The names of the classes, in order. -/
def classNames : ParseTree → List String
  | .abc p => p.classes.map fun c => c.name.text
  | .properties file => [file.className.text]

/-- As the analysis leaves the tree. -/
def framed : ParseTree → ParseTree
  | .abc p => .abc { p with state := .framed }
  | .properties file => .properties file

/-- A class that is shown is one of the tree. -/
theorem mem_classNames_of_shown? {t : ParseTree} {s : Scope} {source name : String} {d : ClassDescriptor}
    (h : t.shown? s source name = some d) : name ∈ t.classNames := by
  cases t with
  | abc p =>
    obtain ⟨⟨index, c⟩, last, -⟩ := Option.map_eq_some_iff.1 h
    have found := Table.mem_of_lookup last
    rw [List.mem_reverse, List.mem_map] at found
    obtain ⟨⟨index', c'⟩, placed, heq⟩ := found
    cases heq
    exact List.mem_map_of_mem (Program.mem_of_mem_indexed placed)
  | properties file =>
    rw [shown?] at h
    split at h
    next here => exact List.mem_singleton.2 here
    next => cases h

end ParseTree

namespace Part

variable {config : Config} {part : Part config}

/-- What the unit holds before its bytecode is generated: a block is its own bytecode. -/
def input (part : Part config) : List UInt8 :=
  match part.tree with
  | .abc _ => part.source.content.toOption.getD []
  | .properties _ => []

def bytecode (part : Part config) : List UInt8 :=
  match part.tree with
  | .abc _ => part.source.content.toOption.getD []
  | .properties file => BundleFrontend.bytecodeOf file

theorem ext_source {part' : Part config} (h : part.source = part'.source) : part = part' := by
  obtain ⟨s, t, parsed⟩ := part
  obtain ⟨s', t', parsed'⟩ := part'
  cases h
  rw [parsed] at parsed'
  cases parsed'
  rfl

/-- The part that a source contributes, if it can be parsed. -/
def ofSource? (config : Config) (s : Source) : Option (Part config) :=
  match parsed : s.tree? config with
  | some tree => some ⟨s, tree, parsed⟩
  | none => none

/-- The parts that sources contribute. -/
def ofSources (config : Config) (sources : List Source) : List (Part config) :=
  sources.filterMap (ofSource? config)

/-- A part is what its source contributes, so it is found again from it. -/
theorem ofSource?_source (part : Part config) : ofSource? config part.source = some part := by
  unfold ofSource?
  split
  next tree parsed => exact congrArg some (ext_source rfl)
  next missing => cases missing.symm.trans part.parsed

@[simp] theorem ofSources_map_source (parts : List (Part config)) :
    ofSources config (parts.map Part.source) = parts := by
  rw [ofSources, List.filterMap_map]
  exact (List.filterMap_congr fun part _ => ofSource?_source part).trans List.filterMap_some

theorem exists_ok {ε α : Type} {x : Except ε α} (h : x.isOk = true) : ∃ a, x = .ok a := by
  cases x with
  | error e => cases h
  | ok a => exact ⟨a, rfl⟩

/-- A part with a program is a block that has some bytes and can be decoded. -/
theorem of_abc {p : Program} (h : part.tree = .abc p) :
    part.source.mime = Mime.abc ∧ AbcFrontend.bytecode part.source = .ok part.bytecode ∧
      Program.decode part.bytecode = .ok p ∧ part.input = part.bytecode := by
  have parsed := part.parsed
  rw [h, Source.tree?] at parsed
  split at parsed
  next mime =>
    obtain ⟨bytes, hbytes, hdecoded⟩ := Option.bind_eq_some_iff.1 parsed
    obtain ⟨p', hp, heq⟩ := Option.map_eq_some_iff.1 hdecoded
    cases heq
    rw [toOption_eq_some] at hbytes hp
    have content : part.bytecode = bytes := by
      unfold bytecode
      rw [h, (AbcFrontend.bytecode_eq_ok hbytes).1]
      rfl
    refine ⟨mime, ?_, ?_, ?_⟩
    · rw [content]; exact hbytes
    · rw [content]; exact hp
    · unfold input bytecode
      rw [h]
  next =>
    split at parsed
    next =>
      obtain ⟨entries, -, heq⟩ := Option.map_eq_some_iff.1 parsed
      cases heq
    next => cases parsed

/-- The tree of a bundle holds the entries that are read from its source, under the locale of the source or
    else of the settings. -/
theorem of_properties {file : PropertiesFile} (h : part.tree = .properties file) :
    part.source.mime = Mime.properties ∧ BundleFrontend.readEntries part.source = .ok file.entries ∧
      file = ⟨BundleFrontend.localeOf part.source config.locale, part.source.shortName, file.entries⟩ := by
  have parsed := part.parsed
  rw [h, Source.tree?] at parsed
  split at parsed
  next =>
    obtain ⟨bytes, -, hdecoded⟩ := Option.bind_eq_some_iff.1 parsed
    obtain ⟨p, -, heq⟩ := Option.map_eq_some_iff.1 hdecoded
    cases heq
  next =>
    split at parsed
    next mime =>
      obtain ⟨entries, hentries, heq⟩ := Option.map_eq_some_iff.1 parsed
      cases heq
      exact ⟨mime, toOption_eq_some.1 hentries, rfl⟩
    next => cases parsed

@[simp] theorem frontend?_eq (part : Part config) :
    Scheduler.standard.frontend? part.source.mime = some part.tree.frontend := by
  cases h : part.tree with
  | abc p =>
    rw [(of_abc h).1]
    rfl
  | properties file =>
    rw [(of_properties h).1]
    rfl

/-- A program is fresh from the decoder. -/
theorem fresh_of_abc {p : Program} (h : part.tree = .abc p) : p.state = .fresh := by
  obtain ⟨-, -, decoded, -⟩ := of_abc h
  obtain ⟨file, -, resolved⟩ := bind_eq_ok.1 decoded
  obtain ⟨found, -, rest⟩ := bind_eq_ok.1 resolved
  obtain ⟨classes, -, made⟩ := bind_eq_ok.1 rest
  cases made
  rfl

/-! ### Definitions -/

/-- The source that defines a name: the first of those that do. -/
def definer (parts : List (Part config)) (name : QName) : Option String :=
  parts.findSome? fun part => if name ∈ part.tree.topLevel then some part.source.name else none

/-- No name is defined by two sources. -/
def Clear (parts : List (Part config)) : Prop :=
  ∀ part ∈ parts, ∀ other ∈ parts, ∀ name ∈ part.tree.topLevel, name ∈ other.tree.topLevel →
    part.source.name = other.source.name

variable {parts done rest : List (Part config)} {part : Part config} {name : QName}

theorem mem_of_definer {source : String} (h : definer parts name = some source) :
    ∃ part ∈ parts, name ∈ part.tree.topLevel ∧ part.source.name = source := by
  obtain ⟨part, hpart, found⟩ := List.exists_of_findSome?_eq_some h
  split at found
  next defined =>
    cases found
    exact ⟨part, hpart, defined, rfl⟩
  next => cases found

/-- If no name is defined twice, each part is the definer of its own names. -/
theorem Clear.definer (h : Clear parts) (hpart : part ∈ parts) (defined : name ∈ part.tree.topLevel) :
    Part.definer parts name = some part.source.name := by
  cases found : Part.definer parts name with
  | some source =>
    obtain ⟨other, hother, defined', rfl⟩ := mem_of_definer found
    rw [h part hpart other hother name defined defined']
  | none =>
    unfold Part.definer at found
    have absent := List.findSome?_eq_none_iff.1 found part hpart
    rw [if_pos defined] at absent
    cases absent

/-- Some part defines the name. -/
def defines (parts : List (Part config)) (name : QName) : Bool :=
  parts.any fun part => part.tree.topLevel.contains name

/-- The qualified name that a reference stands for. -/
def meaning (parts : List (Part config)) : Name → Option QName
  | .qualified q => some q
  | .multi m => m.candidates.find? fun q => (definer parts q).isSome

theorem defines_iff : defines parts name = true ↔ ∃ part ∈ parts, name ∈ part.tree.topLevel := by
  simp [defines]

theorem isSome_definer (parts : List (Part config)) (name : QName) :
    (definer parts name).isSome = defines parts name := by
  unfold definer defines
  induction parts with
  | nil => rfl
  | cons first rest ih =>
    by_cases here : name ∈ first.tree.topLevel
    · simp [here]
    · simpa [here] using ih

/-- A name that the parts give a meaning to stands for its first candidate that some part defines. -/
theorem meaning_eq_some_iff {n : Name} {q : QName} (defined : defines parts q = true) :
    meaning parts n = some q ↔ n.candidates.find? (defines parts) = some q := by
  cases n with
  | qualified q' =>
    simp only [meaning, Name.candidates, Option.some.injEq, List.find?_singleton]
    constructor
    · rintro rfl
      rw [defined]
      rfl
    · intro found
      split at found
      · exact Option.some.inj found
      · cases found
  | multi m => simp only [meaning, Name.candidates, isSome_definer]

end Part

/-! ### Frames -/

namespace ParseTree

/-- The frame that a tree has by itself. -/
def frame : ParseTree → Frame
  | .abc p => p.frame
  | .properties file => BundleFrontend.frameOf file

/-- The classes of a tree, and what else its scripts define. -/
def knows (t : ParseTree) (q : QName) : Bool :=
  match t with
  | .abc p => p.classNames.contains q || (p.definitions.map Prod.fst).contains q
  | .properties file => q = file.className

end ParseTree

namespace Program

theorem contains_foldl_insertClass (f : Frame) (slots : List ClassSlot) (q : QName) :
    (slots.foldl Frame.insertClass f).contains q = true ↔ f.contains q = true ∨
    q ∈ slots.map ClassSlot.name := by
  induction slots generalizing f with
  | nil => simp
  | cons slot rest ih =>
    have one : (f.insertClass slot).contains q = true ↔ f.contains q = true ∨ q = slot.name := by
      simp only [Frame.contains_iff, Frame.insertClass, Table.keys_insert]
      grind
    rw [List.foldl_cons, ih, one, List.map_cons, List.mem_cons, or_assoc]

theorem contains_foldl_insertDefinition (f : Frame) (names : List QName) (q : QName) :
    (names.foldl Frame.insertDefinition f).contains q = true ↔ f.contains q = true ∨ q ∈ names := by
  induction names generalizing f with
  | nil => simp
  | cons name rest ih =>
    have one : (f.insertDefinition name).contains q = true ↔ f.contains q = true ∨ q = name := by
      unfold Frame.insertDefinition
      split
      next known =>
        simp only [Frame.contains_iff]
        grind
      next =>
        simp only [Frame.contains_iff, List.mem_append, List.mem_singleton]
        grind
    rw [List.foldl_cons, ih, one, List.mem_cons, or_assoc]

end Program

namespace ParseTree

/-- A frame that comes from the front end has taken over nothing yet. -/
theorem imported_frame (t : ParseTree) : t.frame.imported = .empty := by
  cases t with
  | abc p =>
    have classes (f : Frame) (slots : List ClassSlot) :
        (slots.foldl Frame.insertClass f).imported = f.imported := by
      induction slots generalizing f with
      | nil => rfl
      | cons slot rest ih => exact ih (f.insertClass slot)
    have definitions (f : Frame) (names : List QName) :
        (names.foldl Frame.insertDefinition f).imported = f.imported := by
      induction names generalizing f with
      | nil => rfl
      | cons name rest ih =>
        refine (ih (f.insertDefinition name)).trans ?_
        unfold Frame.insertDefinition
        split <;> rfl
    exact (definitions _ _).trans (classes _ _)
  | properties file => rfl

/-- A frame knows by itself what its tree knows. -/
theorem contains_frame (t : ParseTree) : t.frame.contains = t.knows := by
  funext q
  refine Bool.eq_iff_iff.2 ?_
  cases t with
  | abc p =>
    have names : (((Program.indexed p.classes).map fun placed => Program.classSlot placed.1 placed.2).map
        ClassSlot.name) = p.classNames := by
      rw [Program.classNames, ← Program.snd_indexed p.classes, List.map_map, List.map_map]
      simp only [Program.snd_indexed]
      rfl
    rw [frame, Program.frame, Program.contains_foldl_insertDefinition,
      Program.contains_foldl_insertClass, names]
    simp [knows, Frame.contains_iff, Table.keys, Table.empty]
  | properties file =>
    simp [frame, knows, BundleFrontend.frameOf, Frame.contains_iff, Frame.insertClass, Table.keys,
      Table.insert, Table.empty, Table.put]

/-- In it each slot stands under the name of its class. -/
theorem named_frame (t : ParseTree) : t.frame.Named := by
  have empty : ({} : Frame).Named := fun entry none => (List.not_mem_nil none).elim
  cases t with
  | abc p =>
    have classes (f : Frame) (h : f.Named) (slots : List ClassSlot) :
        (slots.foldl Frame.insertClass f).Named := by
      induction slots generalizing f with
      | nil => exact h
      | cons slot rest ih => exact ih _ (Frame.named_insertClass h slot)
    have definitions (f : Frame) (h : f.Named) (names : List QName) :
        (names.foldl Frame.insertDefinition f).Named := by
      induction names generalizing f with
      | nil => exact h
      | cons name rest ih =>
        refine ih _ ?_
        unfold Frame.insertDefinition
        split <;> exact h
    exact definitions _ (classes _ empty _) _
  | properties file => exact Frame.named_insertClass empty _

end ParseTree

/-! ### What a part sees of the others -/

variable {config : Config}

namespace Part

variable {parts : List (Part config)} {part : Part config}

/-- Some part knows the name by itself. -/
def known (parts : List (Part config)) (q : QName) : Bool := parts.any fun part => part.tree.knows q

/-- For each of the names, what the part that defines its meaning knows by itself is known. -/
def Covers (parts : List (Part config)) (names : List Name) (known : QName → Bool) : Prop :=
  ∀ n ∈ names, ∀ q, meaning parts n = some q → ∀ other ∈ parts, q ∈ other.tree.topLevel →
    ∀ q', other.tree.knows q' = true → known q' = true

/-- What the unit of a part knows: all that the part knows by itself, and nothing beyond `ever`. -/
structure Knows (ever : QName → Bool) (part : Part config) (known : QName → Bool) : Prop where
  own : ∀ q, part.tree.knows q = true → known q = true
  within : ∀ q, known q = true → ever q = true

/-- The scope in which a part is written down in a build of `parts`: what its unit knows covers what it
    depends on. -/
structure Sees (ever : QName → Bool) (parts : List (Part config)) (part : Part config) (s : Scope) :
    Prop where
  early : part.Knows ever s.early
  late : part.Knows ever s.late
  defined : s.defined = defines parts
  inheritance : ∀ p, part.tree = .abc p → Covers parts part.tree.dependencies.inheritance s.early
  types : ∀ p, part.tree = .abc p → Covers parts part.tree.dependencies.types s.late

/-- A part of one of several builds knows the name by itself. -/
def knownIn (builds : List (List (Part config))) (q : QName) : Bool := builds.any fun parts => known parts q

/-- The scope is what the part sees in one of several builds, whose frames may know what a part of any of
    them does. -/
def SeenIn (builds : List (List (Part config))) (part : Part config) (s : Scope) : Prop :=
  ∃ parts ∈ builds, part.Sees (knownIn builds) parts s

/-- What the parts of these sources know by themselves is known. -/
def Learned (parts : List (Part config)) (done : List String) (known : QName → Bool) : Prop :=
  ∀ source ∈ done, ∀ other ∈ parts, other.source.name = source →
    ∀ q, other.tree.knows q = true → known q = true

/-- What a frame covers it still covers when more is known. -/
theorem Covers.mono {names : List Name} {known known' : QName → Bool} (h : Covers parts names known)
    (more : ∀ q, known q = true → known' q = true) : Covers parts names known' :=
  fun n hn q hq other member defined q' knows => more q' (h n hn q hq other member defined q' knows)

theorem Knows.mono {ever ever' known : QName → Bool} (h : part.Knows ever known)
    (more : ∀ q, ever q = true → ever' q = true) : part.Knows ever' known :=
  ⟨h.own, fun q holds => more q (h.within q holds)⟩

theorem Sees.mono {ever ever' : QName → Bool} {s : Scope} (h : part.Sees ever parts s)
    (more : ∀ q, ever q = true → ever' q = true) : part.Sees ever' parts s :=
  { h with early := h.early.mono more, late := h.late.mono more }

theorem knownIn_mono {builds builds' : List (List (Part config))} (more : builds ⊆ builds') (q : QName)
    (h : knownIn builds q = true) : knownIn builds' q = true := by
  obtain ⟨parts, listed, knows⟩ := List.any_eq_true.1 h
  exact List.any_eq_true.2 ⟨parts, more listed, knows⟩

/-- A scope that was seen in some builds is seen in more of them. -/
theorem SeenIn.mono {builds builds' : List (List (Part config))} {s : Scope} (h : part.SeenIn builds s)
    (more : builds ⊆ builds') : part.SeenIn builds' s := by
  obtain ⟨parts, listed, sees⟩ := h
  exact ⟨parts, more listed, sees.mono (knownIn_mono more)⟩

theorem knownIn_singleton (parts : List (Part config)) : knownIn [parts] = known parts := by
  funext q
  simp [knownIn]

/-- With a single build, what is seen is what that build shows. -/
theorem seenIn_singleton : part.SeenIn [parts] s ↔ part.Sees (known parts) parts s := by
  simp [SeenIn, knownIn_singleton]

/-- What a part sees depends on its tree alone. -/
theorem SeenIn.of_tree {builds : List (List (Part config))} {part' : Part config} {s : Scope}
    (h : part.SeenIn builds s) (same : part'.tree = part.tree) : part'.SeenIn builds s := by
  obtain ⟨parts, listed, sees⟩ := h
  obtain ⟨source, tree, parsed⟩ := part
  obtain ⟨source', tree', parsed'⟩ := part'
  cases same
  exact ⟨parts, listed, ⟨sees.early.own, sees.early.within⟩, ⟨sees.late.own, sees.late.within⟩, sees.defined,
    sees.inheritance, sees.types⟩

end Part

/-- What a build rests on: its parts, the names that frames may know, the scopes in which classes of a part
    may be written, and whether units may be taken over from earlier builds. -/
structure Basis (config : Config) where
  parts : List (Part config)
  ever : QName → Bool
  within : ∀ q, Part.known parts q = true → ever q = true
  admits : Part config → Scope → Prop
  reuses : Prop

/-- Whatever a part may see in the build, its classes may be written in. -/
def Basis.Open (b : Basis config) : Prop := ∀ part s, Part.Sees b.ever b.parts part s → b.admits part s

/-- Units know nothing but what a part of the build does, and none is taken over. -/
structure Basis.Alone (b : Basis config) : Prop where
  isOpen : b.Open
  known : ∀ q, b.ever q = true → Part.known b.parts q = true
  new : ¬b.reuses

/-- The basis of a build of parts after other builds that units may be taken over from. -/
def Basis.following (parts : List (Part config)) (past : List (List (Part config))) (reuses : Prop) :
    Basis config where
  parts := parts
  ever := Part.knownIn (parts :: past)
  within := fun _ knows => List.any_eq_true.2 ⟨parts, .head _, knows⟩
  admits := Part.SeenIn (parts :: past)
  reuses := reuses

/-- A build that follows others admits every scope that a part sees in it. -/
theorem Basis.following_open (parts : List (Part config)) (past : List (List (Part config)))
    (reuses : Prop) :
    (Basis.following parts past reuses).Open :=
  fun _ _ sees => ⟨parts, .head _, sees⟩

end AbcBuild
