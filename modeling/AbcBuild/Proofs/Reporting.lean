/-
Module: AbcBuild.Proofs.Reporting
Purpose: What a unit reports of the names that it has gathered: those that nothing accounts for, each once,
  after all else.  No other step tells of a type that was not found.
Main exports: Registry.accounts, AbcFrontend.reportUnresolved_log, AbcFrontend.publishProgram_reports,
  BundleFrontend.publish_others
-/
import AbcBuild.Proofs.Replay

namespace AbcBuild

/-! ### Names that are reported -/

/-- The message tells of a type that was not found. -/
def Message.isUnresolved : Message → Bool
  | .unresolvedType _ => true
  | _ => false

/-- The diagnostic is about another matter than a type that was not found. -/
def Diagnostic.IsOther (d : Diagnostic) : Prop := d.message.isUnresolved = false

/-- The diagnostic tells of a type that was not found for a source. -/
def Diagnostic.isUnresolvedIn (source : String) (d : Diagnostic) : Bool :=
  d.message.isUnresolved && decide (d.source = some source)

/-- The warning that the type of a name was not found. -/
def Name.warning (source : String) (n : Name) : Diagnostic :=
  { severity := .warning, message := .unresolvedType n.text, source := some source }

/-- Some candidate of the name is builtin, a registered class or defined. -/
def Registry.accounts (r : Registry) (n : Name) : Bool :=
  n.candidates.any fun q => q.isBuiltin || r.hasClass q.text || r.definitions.contains q

theorem Diagnostic.IsClash.isOther {d : Diagnostic} (h : d.IsClash) : d.IsOther := by
  obtain ⟨severity, message, source, line, column⟩ := d
  cases message <;> first | rfl | cases h

theorem Diagnostic.IsOther.not_unresolvedIn {d : Diagnostic} {source : String} (h : d.IsOther) :
    d.isUnresolvedIn source = false := by
  rw [isUnresolvedIn, h, Bool.false_and]

/-- All warnings of a source are about this source. -/
theorem Name.filter_warnings (source : String) (names : List Name) :
    (names.map (warning source)).filter (Diagnostic.isUnresolvedIn source) = names.map (warning source) := by
  refine List.filter_eq_self.2 fun d member => ?_
  obtain ⟨n, -, rfl⟩ := List.mem_map.1 member
  simp [Diagnostic.isUnresolvedIn, warning, Message.isUnresolved]

namespace Log

variable {log log' : Log} {kind : Diagnostic → Prop} {keep : Diagnostic → Bool}

/-- Growth by diagnostics that are left out leaves the others as they are. -/
theorem GrowsBy.filter_entries (h : log.GrowsBy kind log') (others : ∀ d, kind d → keep d = false) :
    log'.entries.filter keep = log.entries.filter keep :=
  h.keeps (P := fun log' => log'.entries.filter keep = log.entries.filter keep) rfl fun log' d hd same => by
    rw [entries_add, List.filter_append, same]
    split <;> simp [others d hd]

/-- If warnings are shown, all that is recorded is there. -/
theorem entries_addAll (shown : log.showWarnings = true) (reports : List Diagnostic) :
    (log.addAll reports).entries = log.entries ++ reports := by
  induction reports generalizing log with
  | nil => exact (List.append_nil _).symm
  | cons d rest ih =>
    have still : (log.add d).showWarnings = true := (log.showWarnings_add d).trans shown
    rw [addAll, List.foldl_cons, ← addAll, ih still, entries_add, shown]
    simp

end Log

namespace AbcFrontend

/-- Whether a name is known is told by the registry; at most an answer is kept. -/
theorem isKnown_eq (n : Name) {cx : Context} (coherent : cx.registry.Coherent) :
    (isKnown n cx).1 = cx.registry.accounts n ∧ cx.Asks (isKnown n cx).2 := by
  cases n with
  | qualified q =>
    refine ⟨?_, .refl cx⟩
    simp [isKnown, Registry.accounts, Name.candidates, Registry.definedIn?, Table.contains]
  | multi m =>
    have answer := coherent.answer (.multi m)
    obtain ⟨found, asks⟩ := cx.asks_resolveName (.multi m)
    unfold isKnown
    simp only
    split
    next builtin =>
      refine ⟨Eq.symm ?_, .refl cx⟩
      obtain ⟨q, member, isBuiltin⟩ := List.any_eq_true.1 builtin
      exact List.any_eq_true.2 ⟨q, member, by rw [isBuiltin]; rfl⟩
    next notBuiltin =>
      refine ⟨?_, asks⟩
      simp only [found, answer, Registry.meaning, Registry.accounts, Name.candidates]
      rw [Bool.eq_iff_iff]
      simp only [Name.isBuiltin, Name.candidates, Bool.not_eq_true, List.any_eq_false] at notBuiltin
      simp only [Bool.or_eq_true, List.find?_isSome, List.any_eq_true]
      grind

/-- Of the names that were not seen yet, those that nothing accounts for are reported, each once. -/
theorem reportUnresolved_log (source : String) (seen names : List Name) {cx : Context}
    (coherent : cx.registry.Coherent) :
    ∃ reported : List Name, reported.Nodup ∧
      (∀ n, n ∈ reported ↔ n ∈ names ∧ n ∉ seen ∧ cx.registry.accounts n = false) ∧
      (reportUnresolved source seen names cx).log = cx.log.addAll (reported.map (Name.warning source)) := by
  induction names generalizing seen cx with
  | nil => exact ⟨[], List.nodup_nil, by simp, rfl⟩
  | cons n rest ih =>
    rw [reportUnresolved]
    by_cases old : n ∈ seen
    · obtain ⟨reported, distinct, mem, log⟩ := ih seen coherent
      rw [if_pos (List.contains_iff_mem.2 old)]
      refine ⟨reported, distinct, fun n' => ?_, log⟩
      rw [mem, List.mem_cons]
      grind
    · obtain ⟨known, asks⟩ := isKnown_eq n coherent
      have coherent' := asks.coherent coherent
      rw [if_neg (fun listed => old (List.contains_iff_mem.1 listed))]
      simp only [known]
      obtain ⟨r, changed, answers, rfl, -⟩ := asks
      rw [changed] at coherent' ⊢
      cases accounted : cx.registry.accounts n with
      | true =>
        obtain ⟨reported, distinct, mem, log⟩ := ih (n :: seen) coherent'
        refine ⟨reported, distinct, fun n' => ?_, log⟩
        rw [mem]
        simp only [List.mem_cons]
        have same : Registry.accounts { cx.registry with multinames := answers } n'
          = cx.registry.accounts n' := rfl
        grind
      | false =>
        have coherent'' : (Context.report { cx with registry := { cx.registry with multinames := answers } }
          .warning (some source) (.unresolvedType n.text)).registry.Coherent := coherent'
        obtain ⟨reported, distinct, mem, log⟩ := ih (n :: seen) coherent''
        have fresh : n ∉ reported := fun again => ((mem n).1 again).2.1 (.head _)
        refine ⟨n :: reported, List.nodup_cons.2 ⟨fresh, distinct⟩, fun n' => ?_, log⟩
        rw [List.mem_cons, mem]
        simp only [List.mem_cons]
        have same : (Context.report { cx with registry := { cx.registry with multinames := answers } }
          .warning (some source) (.unresolvedType n.text)).registry.accounts n'
          = cx.registry.accounts n' := rfl
        grind

end AbcFrontend

/-! ### What else is reported -/

theorem Context.report_other (cx : Context) (severity : Severity) (source : Option String)
    {message : Message} (h : message.isUnresolved = false) :
    cx.Evolves Diagnostic.IsOther (cx.report severity source message) :=
  cx.evolves_report h

theorem Constant.isUnresolved_coerce (slot : String) (declared : QName) (value : ConstantValue)
    (strict : Bool) :
    ∀ message ∈ (coerce slot declared value strict).2, message.isUnresolved = false := by
  intro message warned
  unfold coerce at warned
  split at warned
  next => cases warned
  next =>
    split at warned
    next =>
      obtain ⟨-, -, rfl⟩ := Option.map_eq_some_iff.1 warned
      rfl
    next =>
      split at warned <;> cases warned
      rfl

namespace Program

theorem warn_others {log : Log} (source : String) {warning : Option Message}
    (h : ∀ message ∈ warning, message.isUnresolved = false) :
    log.GrowsBy Diagnostic.IsOther (warn log source warning) := by
  cases warning with
  | none => exact .refl _ log
  | some message =>
    have other : Diagnostic.IsOther ⟨.warning, message, some source, 0, 0⟩ := h message rfl
    exact Log.growsBy_add other log

/-- Values that do not fit are another matter. -/
theorem constants_others (p : Program) (types : SlotTypes) (strict : Bool) (source : String) (log : Log) :
    log.GrowsBy Diagnostic.IsOther (p.constants types strict source log).2 := by
  unfold constants
  generalize (Table.empty : Table TraitRef ConstantValue) = values
  induction p.initializers generalizing values log with
  | nil => exact .refl _ log
  | cons i rest ih =>
    rw [List.foldl_cons]
    cases made : p.evaluate types strict i with
    | none => exact ih log values
    | some pair =>
      refine (warn_others source fun message warned => ?_).trans (ih _ _)
      unfold evaluate at made
      split at made
      next => cases made
      next value _ =>
        split at made
        next declared _ =>
          cases made
          exact Constant.isUnresolved_coerce i.name declared value strict message warned
        next =>
          cases made
          cases warned

end Program

namespace AbcFrontend

theorem reportVectors_others (program : Program) (source : String) (cx : Context) :
    cx.Evolves Diagnostic.IsOther (reportVectors program source cx) := by
  unfold reportVectors
  split
  next => exact Context.Evolves.foldl (fun cx name => cx.report_other _ _ rfl) _ cx
  next => exact .refl _ cx

/-- A program reports other matters first, and then the names that were gathered.  By then its classes are
    registered. -/
theorem publishProgram_reports (program : Program) (table : TypeTable) (u : BuildUnit) {cx : Context}
    (ok : cx.hasErrors = false) (coherent : cx.registry.Coherent) :
    ∃ cx', cx.log.GrowsBy Diagnostic.IsOther cx'.log ∧ cx'.registry.Coherent ∧
      cx'.registry.definitions = cx.registry.definitions ∧
      (publishProgram [] program table u cx).2 = reportUnresolved u.source.name
        [] u.scratch.unresolved cx' := by
  have grows :=
    program.constants_others (u.scratch.constants.getD .empty) cx.config.strict u.source.name cx.log
  have before := describing_remarks u cx program
  obtain ⟨entries, cx₁, loader, store, publishes, searched, heq⟩ := publishProgram_eq table ok
  -- the classes are published, which changes no definition
  have becomes := publishes.becomes (before.coherent coherent)
  have styled := publishStyles_becomes u becomes.coherent
  have entered : cx₁.registry.definitions = (describing u cx program).registry.definitions :=
    congrArg Facts.definitions becomes.facts
  have merged : (publishStyles u cx₁).registry.definitions = cx₁.registry.definitions :=
    congrArg Facts.definitions styled.facts
  have vectors := reportVectors_remarks program u.source.name { publishStyles u cx₁ with store := store }
  refine ⟨reportVectors program u.source.name { publishStyles u cx₁ with store := store }, ?_,
    vectors.coherent styled.coherent,
    vectors.definitions.trans (merged.trans (entered.trans before.definitions)), congrArg Prod.snd heq⟩
  have clashes := (publishes.clashes.trans (publishStyles_clashes u cx₁).1).log.imp
    fun _ clash => Diagnostic.IsClash.isOther clash
  exact (grows.trans clashes).trans (reportVectors_others _ _ _).log

end AbcFrontend

/-- A bundle reports other matters only. -/
theorem BundleFrontend.publish_others {u : BuildUnit} (plain : u.hasTypeInfo = false) (cx : Context) :
    cx.log.GrowsBy Diagnostic.IsOther (publish [] u cx).2.log := by
  cases answer : (registered u cx).2 with
  | some e =>
    have other : e.message.isUnresolved = false := by cases e <;> rfl
    rw [publish_refused answer]
    exact (Context.report_other _ _ _ other).log
  | none =>
    have table : cx.log.GrowsBy Diagnostic.IsOther (opened u cx).2.log :=
      (Context.evolves_typeTable Diagnostic.IsOther { cx with registry := (registered u cx).1 }).log
    cases held : u.properties? with
    | none =>
      unfold registered at answer
      simp only [publish, answer, plain, held, Bool.false_eq_true, if_false]
      exact table
    | some file =>
      obtain ⟨entries, cx₁, publishes, heq⟩ := publish_new answer plain held
      rw [heq]
      exact table.trans (publishes.clashes.log.imp fun _ clash => Diagnostic.IsClash.isOther clash)

end AbcBuild
