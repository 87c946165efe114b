/-
Module: AbcBuild.Proofs.Part
Purpose: What holds of the unit of a part after each phase.  All phases but the one that publishes leave what
  the units share as it is.
Main exports: Part.Fits, Part.Published, Context.Offers, Part.step_quiet
-/
import AbcBuild.Proofs.Cleaning
import AbcBuild.Proofs.Contribution

namespace AbcBuild

variable {P : Nat → ClassDef → ClassSlot → Prop}

namespace Part

variable {config : Config}

/-! ### Units -/

/-- The unit has what the source contributes. -/
structure Fits (part : Part config) (u : BuildUnit) : Prop where
  source : u.source = part.source
  topLevel : u.topLevel = part.tree.topLevel
  dependencies : u.dependencies = part.tree.dependencies
  styles : u.styles = part.tree.styles

/-- The table holds a descriptor for each class, which shows it in a scope. -/
structure Published (part : Part config) (s : Scope) (store : ClassStore) (table : Table String ClassId) :
    Prop where
  keys : table.keys = Table.enter [] part.tree.classNames
  shows : ∀ name id, table.get? name = some id →
    ∃ d, store.Publishes id d ∧ d.name = name ∧ part.tree.shown? s part.source.name name = some d

variable {store : ClassStore} {phase : Phase} {store' : ClassStore}

theorem Published.mono {part : Part config} {s : Scope} {table : Table String ClassId}
    (h : part.Published s store table) (more : store.Extends store') : part.Published s store' table where
  keys := h.keys
  shows := by
    intro name id hid
    obtain ⟨d, hd, shown⟩ := h.shows name id hid
    exact ⟨d, hd.mono more, shown⟩

/-- The unit that the first phase makes of the source. -/
def unit (part : Part config) : BuildUnit :=
  match part.tree with
  | .abc p =>
    AbcFrontend.collect p { BuildUnit.ofSource part.source with tree := some (.abc p), bytes := part.input }
  | .properties file => BundleFrontend.collect file (.ofSource part.source)

/-- The unit is parsed. -/
def Parsed (part : Part config) (u : BuildUnit) : Prop := ∃ last, u = { part.unit with lastPhase := last }

theorem fits_unit (part : Part config) : part.Fits part.unit := by
  unfold unit
  constructor <;> cases part.tree <;> rfl

theorem tree_unit (part : Part config) : part.unit.tree = some part.tree := by
  unfold unit
  cases part.tree <;> rfl

/-- A unit that is parsed has neither type information nor classes. -/
theorem new_unit (part : Part config) :
    part.unit.hasTypeInfo = false ∧ part.unit.bytes = part.input ∧ part.unit.classTable = .empty := by
  unfold unit input
  cases part.tree <;> exact ⟨rfl, rfl, rfl⟩

/-- Each slot of the frame stands under its name, and what the part knows by itself stays when the frame is
    cleaned. -/
structure Bears (part : Part config) (f : Frame) : Prop where
  named : f.Named
  lasts : ∀ q, part.tree.knows q = true → f.clean.contains q = true

/-- A frame of the part that knows nothing beyond `ever`. -/
structure Frames (ever : QName → Bool) (part : Part config) (f : Frame) : Prop extends part.Bears f where
  within : ∀ q, f.contains q = true → ever q = true

/-- The unit has a frame that knows these names, with slots for the classes of a block. -/
structure Framed (part : Part config) (known : QName → Bool) (P : Nat → ClassDef → ClassSlot → Prop)
    (u : BuildUnit) :
    Prop where
  fits : part.Fits u
  plain : u.hasTypeInfo = false
  bytes : u.bytes = part.input
  classTable : u.classTable = .empty
  tree : u.tree = some part.tree.framed
  flow : ∀ p, part.tree = .abc p → u.scratch.flow = some p.classNames
  frame : ∃ f, u.typeInfo = some f ∧ part.Bears f ∧ f.contains = known ∧ ∀ p, part.tree = .abc p →
    p.Mirrors P f

section

variable (b : Basis config)

/-- The unit has its frame. -/
def Opened (part : Part config) (u : BuildUnit) : Prop :=
  ∃ known, part.Knows b.ever known ∧ part.Framed known (fun _ _ => Program.Untyped) u

/-- The supertypes of a block are bound by what the unit knew then. -/
structure Bound (part : Part config) (known : QName → Bool) (u : BuildUnit) : Prop where
  knows : part.Knows b.ever known
  covers : ∀ p, part.tree = .abc p → Covers b.parts part.tree.dependencies.inheritance known
  learned : ∀ p, part.tree = .abc p → Learned b.parts (u.scratch.processed.getD []) known
  framed : part.Framed known (fun _ c slot => Program.Untyped slot ∧ Program.SuperIn known c slot) u

/-- The types of the slots of a block are bound, too. -/
structure Typed (part : Part config) (s : Scope) (u : BuildUnit) : Prop where
  sees : part.Sees b.ever b.parts s
  admitted : b.admits part s
  framed : part.Framed s.late (Program.BoundIn s.early s.late) u
  types : ∀ p, part.tree = .abc p → ∃ types, u.scratch.constants = some types ∧ p.TypesOf s.late types

/-- The classes of the unit are published. -/
structure Listed (part : Part config) (store : ClassStore) (u : BuildUnit) : Prop where
  fits : part.Fits u
  plain : u.hasTypeInfo = false
  bytes : u.bytes = part.input
  classes : ∃ s, b.admits part s ∧ part.Published s store u.classTable
  tree : u.tree = some part.tree.framed
  frame : ∃ f, u.typeInfo = some f ∧ part.Frames b.ever f

/-- The unit has all that later builds take over. -/
structure Finished (part : Part config) (store : ClassStore) (u : BuildUnit) : Prop where
  fits : part.Fits u
  bytes : u.bytes = part.bytecode
  classes : ∃ s, b.admits part s ∧ part.Published s store u.classTable
  frame : ∃ f, u.typeInfo = some f ∧ part.Frames b.ever f

/-- The bytecode of the unit is there, and what its analysis left is gone. -/
structure Generated (part : Part config) (store : ClassStore) (u : BuildUnit) : Prop
    extends part.Finished b store u where
  plain : u.hasTypeInfo = false
  available : u.bytecodeAvailable = true
  scratch : u.scratch = {}
  clean : ∀ f, u.typeInfo = some f → f.isClean = true

/-- What holds of a unit after a phase that worked on it. -/
def At (part : Part config) (store : ClassStore) : Phase → BuildUnit → Prop
  | .parse1 | .parse2 => part.Parsed
  | .analyze1 => part.Opened b
  | .analyze2 => fun u => ∃ known, part.Bound b known u
  | .analyze3 => fun u => ∃ s, part.Typed b s u
  | .analyze4 => part.Listed b store
  | .generate | .postprocess => part.Generated b store

/-- The unit is taken over from an earlier build. -/
structure Kept (part : Part config) (store : ClassStore) (u : BuildUnit) :
    Prop extends part.Finished b store u where
  kept : u.hasTypeInfo = true
  shared : b.reuses

/-- What holds of a unit after a phase: it is taken over from an earlier build, or the phase worked on it. -/
def After (part : Part config) (store : ClassStore) (phase : Phase) (u : BuildUnit) : Prop :=
  part.Kept b store u ∨ part.At b store phase u

/-- The slot of the part holds its unit, and the phase is the last that the unit has been through. -/
def Reached (part : Part config) (store : ClassStore) (phase : Phase) (unit : Option BuildUnit) : Prop :=
  ∃ u, unit = some u ∧ part.After b store phase u ∧ u.lastPhase = some phase

end

variable {b : Basis config} {part : Part config} {u : BuildUnit} {cx : Context}

theorem Finished.mono (h : part.Finished b store u) (more : store.Extends store') :
    part.Finished b store' u :=
  { h with classes := h.classes.imp fun _ published => ⟨published.1, published.2.mono more⟩ }

theorem Generated.mono (h : part.Generated b store u) (more : store.Extends store') :
    part.Generated b store' u :=
  { h with toFinished := h.toFinished.mono more }

theorem At.mono (h : part.At b store phase u) (more : store.Extends store') :
    part.At b store' phase u := by
  cases phase with
  | analyze4 =>
    have listed : part.Listed b store u := h
    exact { listed with classes := listed.classes.imp fun _ published =>
      ⟨published.1, published.2.mono more⟩ }
  | generate | postprocess => exact Generated.mono h more
  | _ => exact h

theorem After.mono (h : part.After b store phase u) (more : store.Extends store') :
    part.After b store' phase u := by
  rcases h with kept | h
  · exact Or.inl { kept with toFinished := kept.toFinished.mono more }
  · exact Or.inr (h.mono more)

theorem Parsed.fits (h : part.Parsed u) : part.Fits u := by
  obtain ⟨last, rfl⟩ := h
  exact { part.fits_unit with }

theorem Parsed.tree (h : part.Parsed u) : u.tree = some part.tree := by
  obtain ⟨last, rfl⟩ := h
  exact part.tree_unit

theorem Parsed.new (h : part.Parsed u) :
    u.hasTypeInfo = false ∧ u.bytes = part.input ∧ u.classTable = .empty := by
  obtain ⟨last, rfl⟩ := h
  exact part.new_unit

theorem At.fits (h : part.At b store phase u) : part.Fits u := by
  cases phase with
  | parse1 | parse2 => exact Parsed.fits h
  | analyze1 =>
    obtain ⟨_, -, framed⟩ := h
    exact framed.fits
  | analyze2 =>
    obtain ⟨_, bound⟩ := h
    exact bound.framed.fits
  | analyze3 =>
    obtain ⟨_, typed⟩ := h
    exact typed.framed.fits
  | analyze4 => exact Listed.fits h
  | generate | postprocess => exact Finished.fits (Generated.toFinished h)

theorem After.fits (h : part.After b store phase u) : part.Fits u := by
  rcases h with kept | h
  · exact kept.fits
  · exact h.fits

/-- The frame of a unit whose types are bound. -/
theorem Typed.frame {s : Scope} (h : part.Typed b s u) :
    ∃ f, u.typeInfo = some f ∧ part.Frames b.ever f := by
  obtain ⟨f, hf, bears, contains, -⟩ := h.framed.frame
  exact ⟨f, hf, bears, contains ▸ h.sees.late.within⟩

theorem Framed.noted {known : QName → Bool} (h : part.Framed known P u)
    (last : Option Phase) : part.Framed known P { u with lastPhase := last } :=
  { h with fits := { h.fits with } }

/-- The phase that was last may be noted. -/
theorem At.noted (h : part.At b store phase u) (last : Option Phase) :
    part.At b store phase { u with lastPhase := last } := by
  have parsed (h : part.Parsed u) : part.Parsed { u with lastPhase := last } := by
    obtain ⟨before, rfl⟩ := h
    exact ⟨last, rfl⟩
  have generated (h : part.Generated b store u) : part.Generated b store { u with lastPhase := last } :=
    { h with fits := { h.fits with } }
  cases phase with
  | parse1 | parse2 => exact parsed h
  | analyze1 =>
    obtain ⟨known, knows, framed⟩ := h
    exact ⟨known, knows, framed.noted last⟩
  | analyze2 =>
    obtain ⟨known, bound⟩ := h
    exact ⟨known, bound.knows, bound.covers, bound.learned, bound.framed.noted last⟩
  | analyze3 =>
    obtain ⟨s, typed⟩ := h
    exact ⟨s, { typed with framed := typed.framed.noted last }⟩
  | analyze4 =>
    have listed : part.Listed b store u := h
    exact { listed with fits := { listed.fits with } }
  | generate | postprocess => exact generated h

theorem After.noted (h : part.After b store phase u) (last : Option Phase) :
    part.After b store phase { u with lastPhase := last } := by
  rcases h with kept | h
  · exact Or.inl { kept with fits := { kept.fits with } }
  · exact Or.inr (h.noted last)

end Part

/-! ### What a build tells its units -/

namespace Context

variable {config : Config}

/-- The sources of a build are those of parts, and the registry knows what they define. -/
structure Grounded (cx : Context) (parts : List (Part config)) : Prop where
  settings : cx.config = config
  coherent : cx.registry.Coherent
  definitions : ∀ name, cx.registry.definitions.get? name = Part.definer parts name
  clear : Part.Clear parts
  distinct : (parts.map fun part => part.source.name).Nodup

/-- The frames that a build has to offer to a part: all other parts have one, which knows what the part knows
    by itself, and no frame knows more than it may. -/
structure Offers (cx : Context) (b : Basis config) (part : Part config) : Prop where
  sound : ∀ source g, cx.frameOf? source = some g → g.Named ∧ ∀ q, g.contains q = true → b.ever q = true
  complete : ∀ other ∈ b.parts, other ≠ part →
    ∃ g, cx.frameOf? other.source.name = some g ∧ ∀ q, other.tree.knows q = true → g.contains q = true

variable {cx cx' : Context} {b : Basis config} {parts : List (Part config)} {part : Part config}

theorem Asks.grounded (h : cx.Asks cx') (ground : cx.Grounded parts) : cx'.Grounded parts := by
  have coherent := h.coherent ground.coherent
  obtain ⟨r, rfl, resolves⟩ := h
  refine ⟨ground.settings, coherent, fun name => ?_, ground.clear, ground.distinct⟩
  rw [resolves.definitions]
  exact ground.definitions name

theorem Asks.offers (h : cx.Asks cx') (offers : cx.Offers b part) : cx'.Offers b part := by
  obtain ⟨sound, complete⟩ := offers
  rw [← h.frameOf?] at sound complete
  exact ⟨sound, complete⟩

theorem Asks.becomes (h : cx.Asks cx') (coherent : cx.registry.Coherent) : cx.Becomes cx.facts cx' :=
  h.remarks.becomes coherent

/-- What a reference is taken for is told by the parts. -/
theorem Grounded.answer (h : cx.Grounded parts) : cx.registry.answer = Part.meaning parts := by
  funext n
  rw [h.coherent.answer]
  cases n with
  | qualified q => rfl
  | multi m =>
    have same : cx.registry.definitions.contains = fun q => (Part.definer parts q).isSome := by
      funext q
      rw [Table.contains, h.definitions]
    exact congrArg (fun p => m.candidates.find? p) same

theorem Grounded.contains (h : cx.Grounded parts) :
    cx.registry.definitions.contains = Part.defines parts := by
  funext q
  rw [Table.contains, h.definitions, Part.isSome_definer]

/-- A name whose meaning another part defines asks for the source of that part. -/
theorem Grounded.asks (h : cx.Grounded parts) {u : BuildUnit} (fits : part.Fits u) (member : part ∈ parts)
    {n : Name} {q : QName} (means : Part.meaning parts n = some q) {other : Part config}
    (listed : other ∈ parts) (defined : q ∈ other.tree.topLevel) (apart : other ≠ part) :
    cx.asks u n = some other.source.name := by
  have names : other.source.name ≠ part.source.name := fun same =>
    apart (List.inj_on_of_nodup_map h.distinct listed member same)
  have foreign : q ∉ part.tree.topLevel := fun own => names (h.clear other listed part member q defined own)
  have source : cx.registry.definedIn? q = some other.source.name :=
    (h.definitions q).trans (h.clear.definer listed defined)
  rw [Context.asks, h.answer, means, Option.bind_some, dependency?, fits.topLevel, fits.source, source]
  simp [foreign, names]

end Context

/-! ### Steps without effect -/

namespace Frontend

/-- Once there are errors, a step does nothing. -/
theorem step_failed (f : Frontend) (phase : Phase) (u : BuildUnit) {cx : Context}
    (failed : cx.hasErrors = true) :
    f.step phase u cx = (u, cx) := by
  cases hformat : f.format <;> simp [step, hformat, AbcFrontend.step, BundleFrontend.step, failed]

/-- A unit that is taken over only publishes. -/
theorem step_kept (f : Frontend) {phase : Phase} (quiet : phase ≠ .analyze4) {u : BuildUnit}
    (kept : u.hasTypeInfo = true) (cx : Context) : f.step phase u cx = (u, cx) := by
  cases hformat : f.format <;> simp [step, hformat, AbcFrontend.step, BundleFrontend.step, kept, quiet]

end Frontend

/-! ### What a unit takes over -/

namespace Part

variable {config : Config} {b : Basis config} {part : Part config} {u : BuildUnit} {cx : Context}
  {f f' : Frame}

/-- A frame that keeps its own slots and forgets no definition stays one of the part. -/
theorem Bears.grows (h : part.Bears f) (named : f'.Named) (own : f'.own = f.own)
    (definitions : f.definitions ⊆ f'.definitions) : part.Bears f' := by
  refine ⟨named, fun q knows => ?_⟩
  have old := h.lasts q knows
  rw [Frame.contains_clean, Bool.or_eq_true, List.contains_iff_mem] at old ⊢
  rw [own]
  exact old.imp_right (definitions ·)

theorem Frames.knows (h : part.Frames b.ever f) : part.Knows b.ever f.contains := by
  refine ⟨fun q knows => ?_, h.within⟩
  have old := h.lasts q knows
  rw [Frame.contains_clean, Bool.or_eq_true] at old
  rw [Frame.contains, Frame.hasClass, Bool.or_eq_true, Bool.or_eq_true]
  exact old.imp_left Or.inl

/-- Cleaning leaves a frame of the part. -/
theorem Frames.clean (h : part.Frames b.ever f) : part.Frames b.ever f.clean := by
  refine ⟨⟨fun entry held => ?_, fun q knows => ?_⟩, fun q holds => h.within q ?_⟩
  · rcases List.mem_append.1 held with own | none
    · obtain ⟨old, member, rfl⟩ := List.mem_map.1 own
      exact h.named old (List.mem_append_left _ member)
    · cases none
  · rw [f.clean_clean]
    exact h.lasts q knows
  · rw [Frame.contains_clean, Bool.or_eq_true] at holds
    rw [Frame.contains, Frame.hasClass, Bool.or_eq_true, Bool.or_eq_true]
    exact holds.imp_left Or.inl

/-- Frames are taken over: what the unit knows then, and what is covered by it. -/
theorem Knows.takes (ground : cx.Grounded b.parts) (member : part ∈ b.parts) (fits : part.Fits u)
    (offers : cx.Offers b part) {names : List Name} {done done' : List String}
    (takes : f.Takes cx.frameOf? (cx.asks u) names done f' done') (knows : part.Knows b.ever f.contains)
    (learned : Learned b.parts done f.contains) :
    part.Knows b.ever f'.contains ∧ Learned b.parts done' f'.contains ∧
      Covers b.parts names f'.contains := by
  have more : Learned b.parts done' f'.contains := by
    intro source listed other among same q knows'
    rcases takes.taken source listed with before | ⟨g, found, taken⟩
    · exact takes.grows.names q (learned source before other among same q knows')
    · by_cases self : other = part
      · exact takes.grows.names q (knows.own q (self ▸ knows'))
      · obtain ⟨g', found', all⟩ := offers.complete other among self
        rw [same, found] at found'
        cases found'
        exact (taken (offers.sound source g found).1).names q (all q knows')
  refine ⟨⟨fun q own => takes.grows.names q (knows.own q own), fun q known => ?_⟩, more, ?_⟩
  · rcases takes.only q known with old | ⟨source, g, found, new⟩
    · exact knows.within q old
    · obtain ⟨named, within⟩ := offers.sound source g found
      exact within q (new named)
  · intro n listed q means other among defined q' knows'
    by_cases self : other = part
    · exact takes.grows.names q' (knows.own q' (self ▸ knows'))
    · obtain ⟨g, found, -⟩ := offers.complete other among self
      rcases takes.asked n listed _ (ground.asks fits member means among defined self) with done | none
      · exact more _ done other among rfl q' knows'
      · cases found.symm.trans none

variable {known : QName → Bool} {p : Program}

/-- The unit of a block takes over the frames that one set of its dependencies asks for. -/
theorem Framed.merge (h : part.Framed known P u) (set : DependencySet) (ground : cx.Grounded b.parts)
    (member : part ∈ b.parts) (offers : cx.Offers b part) (knows : part.Knows b.ever known)
    (learned : Learned b.parts (u.scratch.processed.getD []) known) :
    ∃ u' cx' merged known', mergeDependencies set u cx = (u', cx', merged) ∧ cx.Asks cx' ∧
      part.Framed known' P u' ∧ part.Knows b.ever known' ∧
        Learned b.parts (u'.scratch.processed.getD []) known' ∧
      Covers b.parts (part.tree.dependencies.ofSet set) known' ∧ ∀ q, known q = true → known' q = true := by
  obtain ⟨f, hf, bears, rfl, mirrors⟩ := h.frame
  obtain ⟨f', done, unit, takes, asks⟩ := mergeDependencies_takes set u cx hf
  obtain ⟨knows', learned', covers⟩ := Knows.takes ground member h.fits offers takes knows learned
  rw [h.fits.dependencies] at covers
  refine ⟨_, _, _, f'.contains, Prod.ext unit rfl, asks, ?_, knows', learned', covers, takes.grows.names⟩
  exact { h with
    fits := { h.fits with }
    frame := ⟨f', rfl, bears.grows (takes.named bears.named) takes.own takes.definitions, rfl,
      fun p hp => (mirrors p hp).of_own takes.own⟩ }

/-! ### Quiet phases -/

@[simp] theorem finish_nil (phase : Phase) (u : BuildUnit) (cx : Context) :
    Extension.finish [] phase u cx = (u, cx) := by
  unfold Extension.finish Extension.runAll
  split <;> rfl

@[simp] theorem runAll_nil (phase : Phase) (u : BuildUnit) {cx : Context} (ok : cx.hasErrors = false) :
    Extension.runAll [] phase u cx = (true, u, cx) := by
  simp [Extension.runAll, ok, Extension.runEach]

section

variable (b : Basis config)

/-- A phase leads from what holds of the unit before it to what holds after it. -/
def Steps (part : Part config) (phase : Phase) (u : BuildUnit) (cx : Context) : Prop :=
  ∃ u' cx', part.tree.frontend.step phase u cx = (u', cx') ∧ cx.Becomes cx.facts cx' ∧
    part.At b cx'.store phase u'

end

theorem bears_frame (part : Part config) : part.Bears part.tree.frame := by
  refine ⟨part.tree.named_frame, fun q knows => ?_⟩
  rw [← part.tree.contains_frame, Frame.contains, Frame.hasClass, part.tree.imported_frame] at knows
  rw [Frame.contains_clean]
  simpa [Table.contains, Table.get?, Table.lookup, Table.empty] using knows

/-- A parsed unit gets its frame. -/
theorem Parsed.open (h : part.Parsed u) (member : part ∈ b.parts) (ok : cx.hasErrors = false)
    (coherent : cx.registry.Coherent) : part.Steps b .analyze1 u cx := by
  have knows : part.Knows b.ever part.tree.knows :=
    ⟨fun _ => id, fun q known => b.within q (List.any_eq_true.2 ⟨part, member, known⟩)⟩
  have bears := part.bears_frame
  have contains := part.tree.contains_frame
  have held := h.tree
  obtain ⟨plain, bytes, classTable⟩ := h.new
  cases htree : part.tree with
  | abc p =>
    rw [htree] at bears
    have program : u.program? = some p := by rw [BuildUnit.program?, held, htree]
    refine ⟨{ u with
      tree := some (.abc { p with state := .framed })
      typeInfo := some p.frame
      scratch := { u.scratch with flow := some p.classNames } }, cx, ?_, .refl coherent,
      part.tree.knows, knows, ?_⟩
    · rw [htree]
      simp [ParseTree.frontend, Frontend.step, AbcFrontend.step, ok, plain, AbcFrontend.frame, program,
        fresh_of_abc htree]
    · refine ⟨{ h.fits with }, plain, bytes, classTable, ?_, fun p' hp => ?_, p.frame, rfl, bears, ?_,
        fun p' hp => ?_⟩
      · rw [htree]
        rfl
      · cases htree.symm.trans hp
        rfl
      · rw [← contains, htree]
        rfl
      · cases htree.symm.trans hp
        exact p.mirrors_frame
  | properties file =>
    rw [htree] at bears
    have properties : u.properties? = some file := by rw [BuildUnit.properties?, held, htree]
    have other (p : Program) (hp : part.tree = .abc p) : False := by cases htree.symm.trans hp
    refine ⟨{ u with typeInfo := some (BundleFrontend.frameOf file) }, cx, ?_, .refl coherent,
      part.tree.knows, knows, ?_⟩
    · rw [htree]
      simp [ParseTree.frontend, Frontend.step, BundleFrontend.step, ok, plain, BundleFrontend.frame,
        properties]
    · refine ⟨{ h.fits with }, plain, bytes, classTable, ?_, fun p hp => (other p hp).elim,
        BundleFrontend.frameOf file, rfl, bears, ?_, fun p hp => (other p hp).elim⟩
      · exact held.trans (by rw [htree]; rfl)
      · rw [← contains, htree]
        rfl

theorem Framed.program (h : part.Framed known P u)
    (htree : part.tree = .abc p) : u.program? = some { p with state := .framed } := by
  rw [BuildUnit.program?, h.tree, htree]
  rfl

theorem Framed.bindInheritance (h : part.Framed known (fun _ _ => Program.Untyped) u)
    (htree : part.tree = .abc p) :
    (AbcFrontend.bindInheritance u).scratch.processed = u.scratch.processed ∧
      part.Framed known (fun _ c slot => Program.Untyped slot ∧ Program.SuperIn known c slot)
        (AbcFrontend.bindInheritance u) := by
  obtain ⟨f, hf, bears, rfl, mirrors⟩ := h.frame
  unfold AbcFrontend.bindInheritance
  split
  next names frame hflow hframe =>
    cases hf.symm.trans hframe
    cases (h.flow p htree).symm.trans hflow
    refine ⟨rfl, { h with
      fits := { h.fits with }
      frame := ⟨_, rfl, ⟨bears.named.resolveInheritance _, ?_⟩, ?_, fun p' hp => ?_⟩ }⟩
    · rw [f.resolveInheritance_keeps _ (fun g => g.clean.contains) Frame.contains_clean_modify]
      exact bears.lasts
    · exact f.contains_resolveInheritance _
    · cases htree.symm.trans hp
      exact (mirrors p htree).resolveInheritance
  next missing => exact (missing _ _ (h.flow p htree) hf).elim

theorem Framed.bindTypes {early : QName → Bool}
    (h : part.Framed known (fun _ c slot => Program.Untyped slot ∧ Program.SuperIn early c slot) u)
    (htree : part.tree = .abc p) :
    part.Framed known (Program.BoundIn early known) (AbcFrontend.bindTypes u) ∧
      ∃ types, (AbcFrontend.bindTypes u).scratch.constants = some types ∧ p.TypesOf known types := by
  obtain ⟨f, hf, bears, rfl, mirrors⟩ := h.frame
  simp only [AbcFrontend.bindTypes, hf]
  refine ⟨{ h with
    fits := { h.fits with }
    frame := ⟨_, rfl, ⟨bears.named.resolveTypes, ?_⟩, f.contains_resolveTypes, ?_⟩ }, _, rfl,
    (mirrors p htree).typesOf fun _ _ _ holds => holds.1⟩
  · rw [f.resolveTypes_keeps (fun g => g.clean.contains) Frame.contains_clean_modify]
    exact bears.lasts
  · exact fun p' hp => (mirrors p' hp).resolveTypes

/-- Two phases bind the inheritance and the types of a block. -/
theorem Framed.step_eq {P : Nat → ClassDef → ClassSlot → Prop} (h : part.Framed known P u)
    (htree : part.tree = .abc p) (ok : cx.hasErrors = false) :
    part.tree.frontend.step .analyze2 u cx = AbcFrontend.inheritance [] u cx ∧
      part.tree.frontend.step .analyze3 u cx = AbcFrontend.types [] u cx ∧
      u.program?.map Program.state = some .framed := by
  rw [htree, h.program htree]
  simp [ParseTree.frontend, Frontend.step, AbcFrontend.step, ok, h.plain]

/-- What binds a block leaves a file as it is. -/
theorem Framed.of_properties {Q : Nat → ClassDef → ClassSlot → Prop} (h : part.Framed known P u)
    (other : ∀ p, part.tree ≠ .abc p) : part.Framed known Q u := by
  obtain ⟨f, hf, bears, contains, -⟩ := h.frame
  exact { h with frame := ⟨f, hf, bears, contains, fun p hp => (other p hp).elim⟩ }

/-- A unit with a frame binds its supertypes, in what the frames that it has taken over know. -/
theorem Opened.bind (h : part.Opened b u) (ground : cx.Grounded b.parts) (member : part ∈ b.parts)
    (offers : cx.Offers b part) (ok : cx.hasErrors = false) : part.Steps b .analyze2 u cx := by
  obtain ⟨known, knows, framed⟩ := h
  cases htree : part.tree with
  | abc p =>
    have start : part.Framed known (fun _ _ => Program.Untyped)
        { u with scratch := { u.scratch with processed := some [] } } :=
          { framed with fits := { framed.fits with } }
    obtain ⟨u₁, cx₁, n₁, known₁, heq₁, asks₁, framed₁, knows₁, learned₁, covers₁, -⟩ :=
      start.merge .inheritance ground member offers knows fun _ none => (List.not_mem_nil none).elim
    obtain ⟨u₂, cx₂, n₂, known₂, heq₂, asks₂, framed₂, knows₂, learned₂, -, more₂⟩ :=
      framed₁.merge .spaces (asks₁.grounded ground) member (asks₁.offers offers) knows₁ learned₁
    have becomes := (asks₁.trans asks₂).becomes ground.coherent
    have fine : cx₂.hasErrors = false := (congrArg Facts.failed becomes.facts).trans ok
    obtain ⟨processed, bound⟩ := framed₂.bindInheritance htree
    refine ⟨AbcFrontend.bindInheritance u₂, cx₂, ?_, becomes, known₂, knows₂, fun _ _ => covers₁.mono more₂,
      fun _ _ => ?_, bound⟩
    · obtain ⟨step, -, state⟩ := framed.step_eq htree ok
      rw [step, AbcFrontend.inheritance, if_pos state]
      simp [heq₁, heq₂, fine]
    · rw [processed]
      exact learned₂
  | properties file =>
    have other (p : Program) (hp : part.tree = .abc p) : False := by cases htree.symm.trans hp
    refine ⟨u, cx, ?_, .refl ground.coherent, known, knows, fun p hp => (other p hp).elim,
      fun p hp => (other p hp).elim, framed.of_properties other⟩
    rw [htree]
    simp [ParseTree.frontend, Frontend.step, BundleFrontend.step, ok, framed.plain]

/-- A unit with bound supertypes binds the types of its members, in a scope that the basis admits. -/
theorem Bound.type (h : part.Bound b known u) (ground : cx.Grounded b.parts) (member : part ∈ b.parts)
    (offers : cx.Offers b part) (admits : ∀ s, part.Sees b.ever b.parts s → b.admits part s)
    (ok : cx.hasErrors = false) : part.Steps b .analyze3 u cx := by
  cases htree : part.tree with
  | abc p =>
    obtain ⟨u₁, cx₁, n₁, known₁, heq₁, asks₁, framed₁, knows₁, learned₁, covers₁, more₁⟩ :=
      h.framed.merge .types ground member offers h.knows (h.learned p htree)
    obtain ⟨u₂, cx₂, n₂, known₂, heq₂, asks₂, framed₂, knows₂, -, -, more₂⟩ :=
      framed₁.merge .spaces (asks₁.grounded ground) member (asks₁.offers offers) knows₁ learned₁
    have becomes := (asks₁.trans asks₂).becomes ground.coherent
    have fine : cx₂.hasErrors = false := (congrArg Facts.failed becomes.facts).trans ok
    obtain ⟨typed, types⟩ := framed₂.bindTypes htree
    have sees : part.Sees b.ever b.parts ⟨known, known₂, defines b.parts, fun q hq =>
        more₂ q (more₁ q hq)⟩ :=
      ⟨h.knows, knows₂, rfl, h.covers, fun _ _ => covers₁.mono more₂⟩
    refine ⟨AbcFrontend.bindTypes u₂, cx₂, ?_, becomes, _, sees, admits _ sees, typed, ?_⟩
    · rw [(h.framed.step_eq htree ok).2.1]
      simp [AbcFrontend.types, h.framed.program htree, heq₁, heq₂, fine]
    · intro p' hp
      cases htree.symm.trans hp
      exact types
  | properties file =>
    have other (p : Program) (hp : part.tree = .abc p) : False := by cases htree.symm.trans hp
    have sees : part.Sees b.ever b.parts ⟨known, known, defines b.parts, fun _ => id⟩ :=
      ⟨h.knows, h.knows, rfl, h.covers, fun p hp => (other p hp).elim⟩
    refine ⟨u, cx, ?_, .refl ground.coherent, _, sees, admits _ sees, h.framed.of_properties other,
      fun p hp => (other p hp).elim⟩
    rw [htree]
    simp [ParseTree.frontend, Frontend.step, BundleFrontend.step, ok, h.framed.plain]

/-- A unit that has published keeps its classes as its output is generated. -/
theorem Listed.generate (h : part.Listed b cx.store u) (ok : cx.hasErrors = false)
    (coherent : cx.registry.Coherent) :
    part.Steps b .generate u cx := by
  obtain ⟨f, hf, frames⟩ := h.frame
  have frame : ∃ g, u.typeInfo.map Frame.clean = some g ∧ part.Frames b.ever g :=
    ⟨f.clean, by rw [hf, Option.map_some], frames.clean⟩
  have clean (g : Frame) (held : u.typeInfo.map Frame.clean = some g) : g.isClean = true := by
    obtain ⟨f, -, rfl⟩ := Option.map_eq_some_iff.1 held
    exact f.isClean_clean
  cases htree : part.tree with
  | abc p =>
    refine ⟨({ u with scratch := {}, typeInfo := u.typeInfo.map Frame.clean } : BuildUnit).setBytecode
      u.bytes, cx, ?_, .refl coherent, ⟨{ h.fits with }, ?_, h.classes, frame⟩, h.plain, rfl, rfl, clean⟩
    · rw [htree]
      simp [ParseTree.frontend, Frontend.step, AbcFrontend.step, ok, h.plain, AbcFrontend.generate]
    · exact h.bytes.trans (of_abc htree).2.2.2
  | properties file =>
    have properties : u.properties? = some file := by
      rw [BuildUnit.properties?, h.tree, htree]
      rfl
    refine ⟨({ u with scratch := {}, typeInfo := u.typeInfo.map Frame.clean } : BuildUnit).setBytecode
      (BundleFrontend.bytecodeOf file), cx, ?_, .refl coherent, ⟨{ h.fits with }, ?_, h.classes, frame⟩,
      h.plain, rfl, rfl, clean⟩
    · rw [htree]
      simp [ParseTree.frontend, Frontend.step, BundleFrontend.step, ok, h.plain, BundleFrontend.generate,
        properties]
    · simp [BuildUnit.setBytecode, bytecode, htree]

theorem step_idle {tree : ParseTree} {phase : Phase} (idle : phase = .parse2 ∨ phase = .postprocess)
    (ok : cx.hasErrors = false) : tree.frontend.step phase u cx = (u, cx) := by
  rcases idle with rfl | rfl <;> cases tree <;>
    simp [ParseTree.frontend, Frontend.step, AbcFrontend.step, BundleFrontend.step, ok]

/-- A phase that does not publish leaves what the units share as it is. -/
theorem step_quiet {before phase : Phase} (hnext : before.next? = some phase) (quiet : phase ≠ .analyze4)
    (ground : cx.Grounded b.parts) (member : part ∈ b.parts)
    (offers : phase = .analyze2 ∨ phase = .analyze3 → cx.Offers b part)
    (admits : phase = .analyze3 → ∀ s, part.Sees b.ever b.parts s → b.admits part s)
    (ok : cx.hasErrors = false)
    (h : part.After b cx.store before u) :
    ∃ u' cx', part.tree.frontend.step phase u cx = (u', cx') ∧ cx.Becomes cx.facts cx' ∧
      part.After b cx'.store phase { u' with lastPhase := some phase } := by
  rcases h with kept | h
  · exact ⟨u, cx, part.tree.frontend.step_kept quiet kept.kept cx, .refl ground.coherent,
      After.noted (.inl kept) _⟩
  · have steps : part.Steps b phase u cx := by
      cases before with
      | parse1 =>
        cases hnext
        exact ⟨u, cx, step_idle (Or.inl rfl) ok, .refl ground.coherent, h⟩
      | parse2 =>
        cases hnext
        exact Parsed.open h member ok ground.coherent
      | analyze1 =>
        cases hnext
        exact Opened.bind h ground member (offers (.inl rfl)) ok
      | analyze2 =>
        cases hnext
        obtain ⟨known, bound⟩ := h
        exact bound.type ground member (offers (.inr rfl)) (admits rfl) ok
      | analyze3 =>
        cases hnext
        exact (quiet rfl).elim
      | analyze4 =>
        cases hnext
        exact Listed.generate h ok ground.coherent
      | generate =>
        cases hnext
        exact ⟨u, cx, step_idle (Or.inr rfl) ok, .refl ground.coherent, h⟩
      | postprocess => cases hnext
    obtain ⟨u', cx', step, becomes, reached⟩ := steps
    exact ⟨u', cx', step, becomes, After.noted (.inr reached) _⟩

end Part

end AbcBuild
