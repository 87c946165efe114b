/-
Module: AbcBuild.Proofs.Unresolved
Purpose: A build of its own reports for each block the types that were not found, each once and whatever the
  order of the sources.  By the time a unit reports, the registry knows what all sources define.
Main exports: Registry.Knows, Part.Typed.reports, Scheduler.GathersAt.reports,
  Compilation.unresolved_types_reported_once
-/
import AbcBuild.Proofs.Gathering
import AbcBuild.Proofs.Report
import AbcBuild.Proofs.Reporting

namespace AbcBuild

variable {config : Config}

/-! ### The phase that publishes -/

/-- The registry knows what the parts define, and no classes but theirs. -/
structure Registry.Knows (r : Registry) (parts : List (Part config)) : Prop where
  definitions : r.definitions.contains = Part.defines parts
  classes : ∀ name ∈ r.classes.keys, ∃ part ∈ parts, name ∈ part.tree.classNames

namespace Part

variable {b : Basis config} {parts : List (Part config)} {part : Part config} {p : Program} {u : BuildUnit}
  {cx : Context}
  {s : Scope}

/-- A block reports other matters, and then the names that its unit has gathered. -/
theorem Typed.reports (h : part.Typed b s u) (htree : part.tree = .abc p) (ok : cx.hasErrors = false)
    (coherent : cx.registry.Coherent) :
    ∃ cx', cx.log.GrowsBy Diagnostic.IsOther cx'.log ∧ cx'.registry.Coherent ∧
      cx'.registry.definitions = cx.registry.definitions ∧ (part.tree.frontend.step .analyze4 u cx).2
        = AbcFrontend.reportUnresolved part.source.name [] u.scratch.unresolved cx' := by
  have table := cx.remarks_typeTable
  obtain ⟨cx', grows, coherent', definitions, reports⟩ :=
    AbcFrontend.publishProgram_reports { p with state := .framed } cx.typeTable.1 u
      (table.log.hasErrors_eq.trans ok) (table.coherent coherent)
  refine ⟨cx', (cx.evolves_typeTable _).log.trans grows, coherent', definitions.trans table.definitions, ?_⟩
  rw [step_abc htree ok, ← h.framed.fits.source, ← reports]
  simp only [AbcFrontend.publish, h.framed.plain, Bool.false_eq_true, if_false, h.framed.program htree]

/-- A part tells of types that were not found for its own source only. -/
theorem Typed.reports_own (h : part.Typed b s u) (ok : cx.hasErrors = false)
    (coherent : cx.registry.Coherent) :
    cx.log.GrowsBy (fun d => d.IsOther ∨ d.source = some part.source.name)
      (part.tree.frontend.step .analyze4 u cx).2.log := by
  cases htree : part.tree with
  | abc p =>
    obtain ⟨cx', grows, coherent', -, reports⟩ := h.reports htree ok coherent
    obtain ⟨reported, -, -, log⟩ :=
      AbcFrontend.reportUnresolved_log part.source.name [] u.scratch.unresolved coherent'
    rw [← htree, reports]
    refine (grows.imp fun _ => Or.inl).trans ⟨_, log, fun d listed => Or.inr ?_⟩
    obtain ⟨n, -, rfl⟩ := List.mem_map.1 listed
    rfl
  | properties file =>
    rw [← htree, step_properties htree ok]
    exact (BundleFrontend.publish_others h.framed.plain cx).imp fun _ => Or.inl

end Part

namespace Scheduler

variable {b : Basis config} {parts : List (Part config)} {l : Ledger config} {stage : Nat → Phase}
  {cx : Context}
  {order items : List Nat} {index : Nat} {part : Part config} {p : Program}

/-- The unit of a part that waits to publish, and what its front end makes of the log and of the registry. -/
theorem stepAt_typed (h : cx.Running b l stage) (on : b.Alone) (waiting : stage index = .analyze3)
    (hpart : b.parts[index]? = some part) :
    ∃ u s, cx.unit? index = some u ∧ part.Typed b s u ∧ ((standard.stepAt .analyze4 cx index).log
      = (part.tree.frontend.step .analyze4 u (cx.putUnit index none)).2.log) ∧
      (standard.stepAt .analyze4 cx index).registry
        = (part.tree.frontend.step .analyze4 u (cx.putUnit index none)).2.registry := by
  obtain ⟨-, slot, u, rfl, after, -⟩ := h.units.2 index part hpart
  rw [waiting] at after
  obtain ⟨s, typed⟩ := after.resolve_left fun kept => on.new kept.shared
  have made : part.tree.frontend.step .analyze4 u (cx.putUnit index none)
      = ((part.tree.frontend.step .analyze4 u (cx.putUnit index none)).1,
        (part.tree.frontend.step .analyze4 u (cx.putUnit index none)).2) := rfl
  have step := stepAt_eq slot made
  exact ⟨u, s, Context.unit?_eq slot, typed, by rw [step]; rfl, by rw [step]; rfl⟩

/-- Without errors, the phase that publishes follows the ledger to its end. -/
theorem running_of_published (distinct : items.Nodup) (h : cx.Running b l stage)
    (waiting : ∀ i ∈ items, stage i = .analyze3)
    (ok : (standard.stepAll items .analyze4 cx).hasErrors = false) :
    ∃ l', l.publishAll (items.filterMap (b.parts[·]?)) = some l' ∧
      (standard.stepAll items .analyze4 cx).Running b l'
        fun i => if i ∈ items then .analyze4 else stage i := by
  have published := stepAll_publish distinct h waiting
  cases hl : l.publishAll (items.filterMap (b.parts[·]?)) with
  | none =>
    rw [hl] at published
    cases ok.symm.trans published
  | some l' =>
    rw [hl] at published
    exact ⟨l', rfl, published⟩

/-- Units of other sources tell of no type that was not found for this one. -/
theorem stepAll_others {name : String} (h : cx.Running b l stage) (on : b.Alone) (distinct : items.Nodup)
    (waiting : ∀ i ∈ items, stage i = .analyze3)
    (ok : (standard.stepAll items .analyze4 cx).hasErrors = false)
    (apart : ∀ i ∈ items, ∀ part, b.parts[i]? = some part → part.source.name ≠ name) :
    (standard.stepAll items .analyze4 cx).log.entries.filter (Diagnostic.isUnresolvedIn name)
      = cx.log.entries.filter (Diagnostic.isUnresolvedIn name) := by
  induction items generalizing cx l stage with
  | nil => rfl
  | cons index rest ih =>
    have waits := waiting index (.head _)
    have clear : (standard.stepAll [index] .analyze4 cx).hasErrors = false :=
      (stepAll_advances plain_standard rest .analyze4 _).ok ok
    obtain ⟨l', -, running⟩ := running_of_published (List.nodup_singleton index) h
      (fun i here => List.mem_singleton.1 here ▸ waits) clear
    have waiting' : ∀ i ∈ rest, (if i ∈ [index] then Phase.analyze4 else stage i) = .analyze3 := by
      intro i later
      have other : i ∉ [index] :=
        fun same => (List.nodup_cons.1 distinct).1 (List.mem_singleton.1 same ▸ later)
      rw [if_neg other]
      exact waiting i (.tail _ later)
    refine (ih running (List.nodup_cons.1 distinct).2 waiting' ok fun i later =>
      apart i (.tail _ later)).trans ?_
    cases hpart : b.parts[index]? with
    | none => exact congrArg (fun cx : Context => cx.log.entries.filter _) (stepAt_outside h hpart .analyze4)
    | some part =>
      obtain ⟨u, s, -, typed, log, -⟩ := stepAt_typed h on waits hpart
      have ok' : (cx.putUnit index none).hasErrors = false := h.follows.ok
      have own := typed.reports_own ok' h.ground.coherent
      rw [← log] at own
      refine own.filter_entries fun d kind => ?_
      rcases kind with other | source
      · exact other.not_unresolvedIn
      · have away := apart index (.head _) part hpart
        simp [Diagnostic.isUnresolvedIn, source, away]

/-- The unit of a block reports the names that it has gathered and that the registry does not account for.
    By then its own classes are registered. -/
theorem stepAt_reports (h : cx.Running b l stage) (on : b.Alone) (waiting : stage index = .analyze3)
    (hpart : b.parts[index]? = some part) (htree : part.tree = .abc p) (shown : cx.log.showWarnings = true) :
    ∃ (u : BuildUnit) (reported : List Name) (r : Registry), cx.unit? index = some u ∧ reported.Nodup ∧
      (∀ n, n ∈ reported ↔ n ∈ u.scratch.unresolved ∧ r.accounts n = false) ∧
      r.definitions.contains = Part.defines b.parts ∧
      (standard.stepAt .analyze4 cx index).registry.classes = r.classes ∧
      (standard.stepAt .analyze4 cx index).log.entries.filter (Diagnostic.isUnresolvedIn part.source.name)
        = cx.log.entries.filter (Diagnostic.isUnresolvedIn part.source.name)
          ++ reported.map (Name.warning part.source.name) := by
  obtain ⟨u, s, here, typed, log, registry⟩ := stepAt_typed h on waiting hpart
  have ok : (cx.putUnit index none).hasErrors = false := h.follows.ok
  obtain ⟨cx', grows, coherent, definitions, reports⟩ := typed.reports htree ok h.ground.coherent
  obtain ⟨reported, unique, mem, told⟩ :=
    AbcFrontend.reportUnresolved_log part.source.name [] u.scratch.unresolved coherent
  have remarks := AbcFrontend.reportUnresolved_remarks part.source.name [] u.scratch.unresolved cx'
  have same : cx'.registry.definitions = cx.registry.definitions := definitions
  have others : cx'.log.entries.filter (Diagnostic.isUnresolvedIn part.source.name)
      = cx.log.entries.filter (Diagnostic.isUnresolvedIn part.source.name) :=
    grows.filter_entries fun _ other => other.not_unresolvedIn
  refine ⟨u, reported, cx'.registry, here, unique, fun n => ?_, ?_, ?_, ?_⟩
  · rw [mem]
    simp
  · rw [same, h.ground.contains]
  · rw [registry, reports, remarks.classes]
  · rw [log, reports, told, Log.entries_addAll (grows.showWarnings.trans shown), List.filter_append, others,
      Name.filter_warnings]

/-- The phase that publishes reports, for the source of a block, the names that its unit has gathered and
    that nothing accounts for. -/
theorem stepAll_reports (h : cx.Running b {} fun _ => .analyze3) (on : b.Alone) (distinct : order.Nodup)
    (listed : index ∈ order) (hpart : b.parts[index]? = some part) (htree : part.tree = .abc p)
    (shown : cx.log.showWarnings = true) (ok : (standard.stepAll order .analyze4 cx).hasErrors = false) :
    ∃ (u : BuildUnit) (reported : List Name) (r : Registry), cx.unit? index = some u ∧ reported.Nodup ∧
      (∀ n, n ∈ reported ↔ n ∈ u.scratch.unresolved ∧ r.accounts n = false) ∧ r.Knows b.parts ∧
      (standard.stepAll order .analyze4 cx).log.entries.filter (Diagnostic.isUnresolvedIn part.source.name)
        = cx.log.entries.filter (Diagnostic.isUnresolvedIn part.source.name)
          ++ reported.map (Name.warning part.source.name) := by
  obtain ⟨done, rest, distinct', distinct'', absent, behind, separate, steps, same, -⟩ :=
    stepAll_split plain_standard distinct listed .analyze4 cx
  rw [steps] at ok ⊢
  have clear₂ := (stepAll_advances plain_standard rest .analyze4 _).ok ok
  have clear₁ := (stepAt_advances plain_standard .analyze4 _ index).ok clear₂
  -- the units before this one have published, and after its turn they and this one have
  obtain ⟨l₁, -, before⟩ := running_of_published distinct' h (fun _ _ => rfl) clear₁
  have joined : standard.stepAll (done ++ [index]) .analyze4 cx
      = standard.stepAt .analyze4 (standard.stepAll done .analyze4 cx) index :=
        stepAll_append done [index] .analyze4 cx
  have first : (done ++ [index]).Nodup := List.Nodup.append distinct' (List.nodup_singleton index)
    (List.disjoint_singleton.2 absent)
  obtain ⟨l₂, published, after⟩ := running_of_published first h (fun _ _ => rfl) (joined ▸ clear₂)
  rw [joined] at after
  have shown' := (stepAll_advances plain_standard done .analyze4 cx).log.showWarnings.trans shown
  obtain ⟨u, reported, r, here, unique, mem, definitions, classes, told⟩ :=
    stepAt_reports before on (if_neg absent) hpart htree shown'
  refine ⟨u, reported, r, same ▸ here, unique, mem, ⟨definitions, fun name known => ?_⟩, ?_⟩
  · rw [← classes, after.follows.classes.keys, Ledger.mem_keys_publishAll published] at known
    obtain ⟨other, listed, named⟩ := known.resolve_left fun none => by cases none
    obtain ⟨i, -, place⟩ := List.mem_filterMap.1 listed
    exact ⟨other, List.mem_of_getElem? place, named⟩
  · have apart {items : List Nat} (away : index ∉ items) (i : Nat) (inside : i ∈ items) (other : Part config)
        (hother : b.parts[i]? = some other) : other.source.name ≠ part.source.name := by
      intro alike
      cases Part.place_unique h.ground.distinct hother hpart alike
      exact away inside
    have waiting (i : Nat) (later : i ∈ rest) :
        (if i ∈ done ++ [index] then Phase.analyze4 else .analyze3) = .analyze3 := by
      refine if_neg fun early => ?_
      rcases List.mem_append.1 early with early | here
      · exact separate i early later
      · exact behind (List.mem_singleton.1 here ▸ later)
    rw [stepAll_others after on distinct'' waiting ok (apart behind), told,
      stepAll_others h on distinct' (fun _ _ => rfl) clear₁ (apart absent)]

/-- The phases report, for the source of a block, the names that it cites, that no part knew when they were
    bound, and that nothing accounts for in the end. -/
theorem GathersAt.reports {start : Context} (h : GathersAt b {} p index .parse1 start) (on : b.Alone)
    (distinct : order.Nodup) (complete : ∀ i < b.parts.length, i ∈ order)
    (hpart : b.parts[index]? = some part)
    (htree : part.tree = .abc p) (names : p.classNames.Nodup) (shown : start.log.showWarnings = true)
    (clear : (standard.through order Phase.later start).hasErrors = false) :
    ∃ (gathered reported : List Name) (r : Registry), p.Gathers (Part.known b.parts) p.Cites gathered ∧
      reported.Nodup ∧ (∀ n, n ∈ reported ↔ n ∈ gathered ∧ r.accounts n = false) ∧ r.Knows b.parts ∧
      (standard.through order Phase.later start).log.entries.filter
        (Diagnostic.isUnresolvedIn part.source.name) = start.log.entries.filter
          (Diagnostic.isUnresolvedIn part.source.name) ++ reported.map (Name.warning part.source.name) := by
  have bound := h.through distinct complete on hpart htree names
  have early : (standard.through order [.parse2, .analyze1, .analyze2, .analyze3] start).log = start.log :=
    (through_looks plain_standard (by decide) order start).log
  generalize hcx : standard.through order [.parse2, .analyze1, .analyze2, .analyze3]
    start = cx at bound early
  have whole : standard.through order Phase.later start
      = standard.through order [.generate, .postprocess] (standard.stepAll order .analyze4 cx) := by
    rw [← hcx]
    rfl
  rw [whole] at clear ⊢
  have late : (standard.through order [.generate, .postprocess] (standard.stepAll order .analyze4 cx)).log
      = (standard.stepAll order .analyze4 cx).log := (through_looks plain_standard (by decide) order _).log
  obtain ⟨u, reported, r, here, unique, mem, knows, told⟩ := stepAll_reports bound.running on distinct
    (complete index (List.getElem?_eq_some_iff.1 hpart).1) hpart htree (early ▸ shown)
    ((through_advances plain_standard order _ _).ok clear)
  rw [late, told, early]
  exact ⟨u.scratch.unresolved, reported, r, bound.gathered u here, unique, mem, knows, rfl⟩

end Scheduler

/-! ### Whole builds -/

/-- What a part knows by itself it defines, or it has a class that is written alike. -/
theorem Part.listed_of_knows {part : Part config} {q : QName} (h : part.tree.knows q = true) :
    q ∈ part.tree.topLevel ∨ q.text ∈ part.tree.classNames := by
  cases htree : part.tree with
  | abc p =>
    rw [htree] at h
    rcases Bool.or_eq_true_iff.1 h with named | defined
    · obtain ⟨c, member, rfl⟩ := List.mem_map.1 (List.contains_iff_mem.1 named)
      exact Or.inr (List.mem_map_of_mem (f := fun c : ClassDef => c.name.text) member)
    · obtain ⟨d, member, rfl⟩ := List.mem_map.1 (List.contains_iff_mem.1 defined)
      exact Or.inl (definitions_listed htree d member)
  | properties file =>
    rw [htree] at h
    exact Or.inl (List.mem_singleton.2 (of_decide_eq_true h))

theorem Registry.mem_keys_of_hasClass {r : Registry} {name : String} (h : r.hasClass name = true) :
    name = ClassDescriptor.untypedName ∨ name ∈ r.classes.keys := by
  unfold hasClass class? at h
  split at h
  next untyped => exact Or.inl untyped
  next => exact Or.inr ((Table.isSome_get? _ _).1 h)

namespace Compilation

/-- A type that is neither builtin nor any type at all, and that none of the sources defines or has a class
    like it. -/
def Unheard (config : Config) (sources : List Source) (q : QName) : Prop :=
  q.isBuiltin = false ∧ q.text ≠ "*" ∧
    ∀ s ∈ sources, ∀ tree, s.tree? config = some tree → q ∉ tree.topLevel ∧ q.text ∉ tree.classNames

/-- A type that is builtin or that one of the sources defines. -/
def Found (config : Config) (sources : List Source) (q : QName) : Prop :=
  q.isBuiltin = true ∨ ∃ s ∈ sources, ∃ tree, s.tree? config = some tree ∧ q ∈ tree.topLevel

variable {parts : List (Part config)} {q : QName} {n : Name}

theorem Unheard.not_listed (h : Unheard config (parts.map Part.source) q) {part : Part config}
    (member : part ∈ parts) :
    q ∉ part.tree.topLevel ∧ q.text ∉ part.tree.classNames :=
  h.2.2 part.source (List.mem_map_of_mem member) part.tree part.parsed

/-- What no source has heard of, no part knows. -/
theorem unbound_of_unheard (h : ∀ q ∈ n.candidates, Unheard config (parts.map Part.source) q) :
    n.boundIn (Part.known parts) = none := by
  rw [Name.boundIn_eq_none_iff]
  intro q candidate
  have unheard := h q candidate
  refine ⟨Bool.eq_false_iff.2 fun known => ?_, unheard.1⟩
  obtain ⟨part, member, knows⟩ := List.any_eq_true.1 known
  obtain ⟨undefined, unnamed⟩ := unheard.not_listed member
  exact (Part.listed_of_knows knows).elim undefined unnamed

theorem accounts_of_unheard {r : Registry} (knows : r.Knows parts)
    (h : ∀ q ∈ n.candidates, Unheard config (parts.map Part.source) q) : r.accounts n = false := by
  rw [Registry.accounts, List.any_eq_false]
  intro q candidate accounted
  have unheard := h q candidate
  rw [unheard.1, Bool.false_or, Bool.or_eq_true_iff, knows.definitions] at accounted
  rcases accounted with registered | defined
  · rcases Registry.mem_keys_of_hasClass registered with untyped | listed
    · exact unheard.2.1 untyped
    · obtain ⟨part, member, named⟩ := knows.classes q.text listed
      exact (unheard.not_listed member).2 named
  · obtain ⟨part, member, named⟩ := Part.defines_iff.1 defined
    exact (unheard.not_listed member).1 named

theorem accounts_of_found {r : Registry} (knows : r.Knows parts) (candidate : q ∈ n.candidates)
    (h : Found config (parts.map Part.source) q) : r.accounts n = true := by
  refine List.any_eq_true.2 ⟨q, candidate, ?_⟩
  rcases h with builtin | ⟨s, listed, tree, parsed, defined⟩
  · rw [builtin]
    rfl
  · obtain ⟨part, member, rfl⟩ := List.mem_map.1 listed
    cases part.parsed.symm.trans parsed
    rw [knows.definitions, Part.defines_iff.2 ⟨part, member, defined⟩, Bool.or_true]

/-- In a build that takes nothing over, shows warnings and succeeds, the types that were not found for a
    block whose classes have names of their own are reported once each: all names of supertypes, interfaces
    and data slots that no source has heard of, and none that is builtin or that some source defines. -/
theorem unresolved_types_reported_once (config : Config) (edits : List Edit)
    (fresh : (after config edits).cache.isEmpty = true) (shown : config.showWarnings = true)
    {r : BuildReport}
    (built : (after config edits).build.1 = .ok r) {s : Source}
    (listed : s ∈ (after config edits).sources.values)
    {p : Program} (parsed : s.tree? config = some (.abc p)) (distinct : p.classNames.Nodup) :
    ∃ reported : List Name, reported.Nodup ∧
      r.diagnostics.filter (Diagnostic.isUnresolvedIn s.name) = reported.map (Name.warning s.name) ∧
      (∀ n ∈ reported, p.Cites n) ∧ ∀ n, p.Cites n →
        ((∀ q ∈ n.candidates, Unheard config (after config edits).sources.values q) → n ∈ reported) ∧
        ((∃ q ∈ n.candidates, Found config (after config edits).sources.values q) → n ∉ reported) := by
  have plain := Scheduler.plain_standard
  have keyed := keyed_after config edits
  have opens := (keyed.sound fresh).opens
  have on := alone_basis config [] (reusable_eq_zero fresh)
  generalize (after config edits).basis config [] = b at opens on
  have start := (after config edits).log_context
  obtain ⟨cx, run, ok, -, rfl⟩ := run_of_ok built
  rw [keyed.scheduler] at run
  rw [keyed.settings, shown] at start
  -- no unit is taken over
  have empty (j : Nat) (u : BuildUnit) (there : u ∈ (after config edits).context.unit? j) : False := by
    obtain ⟨slot, held, unit⟩ := Option.bind_eq_some_iff.1 there
    obtain ⟨part, -, kept⟩ := opens.kept slot (List.mem_of_getElem? held) u unit
    exact on.new kept.shared
  rcases Scheduler.standard.run_cases (after config edits).context with
    ⟨order, first, prepared, -, -⟩ | ⟨phase, cx', halted, -, failed, -⟩
  · have sources := Scheduler.parts_of_prepared opens prepared
    rw [← sources] at opens listed ⊢
    obtain ⟨rfl, -, running⟩ := Scheduler.running_of_prepared opens prepared
    obtain ⟨part, member, rfl⟩ := List.mem_map.1 listed
    obtain ⟨index, hpart⟩ := List.mem_iff_getElem?.1 member
    have htree : part.tree = .abc p := Option.some.inj (part.parsed.symm.trans parsed)
    have gathers : Scheduler.GathersAt _ {} p index .parse1 first :=
      ⟨running, Scheduler.prepared_gathers plain prepared (fun j u there => (empty j u there).elim) index⟩
    have prepares := Scheduler.prepares_of_prepared plain (fun slot held u unit => by
      obtain ⟨i, place⟩ := List.mem_iff_getElem?.1 held
      exact (empty i u (by rw [Context.unit?, place, Option.bind_some, unit]; rfl)).elim) prepared
    have clear := Scheduler.clear_of_ok plain prepared (run ▸ ok)
    obtain ⟨gathered, reported, registry, complete, unique, mem, knows, told⟩ := gathers.reports on
      (Part.graph b.parts).nodup_order (fun _ => Part.mem_order) hpart htree distinct
      (by rw [prepares.log, start]) clear
    rw [prepares.log, start, List.filter_nil, List.nil_append] at told
    have ended : cx.log = (Scheduler.standard.through (Part.graph b.parts).order Phase.later first).log := by
      rw [← run, (Scheduler.run_clear plain prepared clear).1, Scheduler.finishAll_log]
    refine ⟨reported, unique, by rw [← told, ← ended]; rfl, fun n listed =>
      complete.cited n ((mem n).1 listed).1, fun n cited => ⟨fun unheard => ?_, fun found listed => ?_⟩⟩
    · exact (mem n).2 ⟨complete.complete n cited (unbound_of_unheard unheard),
        accounts_of_unheard knows unheard⟩
    · obtain ⟨q, candidate, here⟩ := found
      have accounted := accounts_of_found knows candidate here
      rw [((mem n).1 listed).2] at accounted
      cases accounted
  · rw [halted] at run
    rw [← run, failed] at ok
    cases ok

/-- A class with a supertype that is also its interface and that no source has, and with a variable of a type
    that another source defines later. -/
def orphan : Source :=
  classSource "a.abc" ((((Abc.ClassSpec.named "A").extending "Lost").implementing "Lost").var "b" "B")

def orphanage : List Edit := [.add orphan, .add (classSource "b.abc" (Abc.ClassSpec.named "B"))]

theorem unresolved_types_reported_once_orphanage : (after {} orphanage).cache.isEmpty = true ∧
    orphan ∈ (after {} orphanage).sources.values ∧ ∃ r p, (after {} orphanage).build.1 = .ok r ∧
      orphan.tree? {} = some (.abc p) ∧ p.classNames.Nodup ∧ ∃ reported : List Name, reported.Nodup ∧
        r.diagnostics.filter (Diagnostic.isUnresolvedIn orphan.name)
          = reported.map (Name.warning orphan.name) ∧
        .qualified (.unnamed "Lost") ∈ reported ∧ .qualified (.unnamed "B") ∉ reported := by
  have values : (after {} orphanage).sources.values
    = [orphan, classSource "b.abc" (Abc.ClassSpec.named "B")] := rfl
  have listed : orphan ∈ (after {} orphanage).sources.values := by
    rw [values]
    exact List.mem_cons_self ..
  obtain ⟨r, built⟩ := Part.exists_ok (x := (after {} orphanage).build.1) (by decide +kernel)
  have computed : (BuildUnit.program? { source := orphan, tree := orphan.tree? {} }).any (fun p =>
    decide p.classNames.Nodup && p.classes.any
    (fun c => c.superName = some (.qualified (.unnamed "Lost"))) &&
      p.classes.any fun c => c.traits.any fun t => t.body
      = .slot (some (.qualified (.unnamed "B"))) none false)
    = true := by decide +kernel
  obtain ⟨p, program, facts⟩ := (Option.any_eq_true _ _).1 computed
  simp only [Bool.and_eq_true, decide_eq_true_eq, List.any_eq_true] at facts
  obtain ⟨⟨distinct, c, member, base⟩, c', member', t, trait, body⟩ := facts
  have parsed := BuildUnit.tree_of_program program
  dsimp only at parsed
  have fresh : (after {} orphanage).cache.isEmpty = true := rfl
  obtain ⟨reported, unique, told, -, complete⟩ :=
    unresolved_types_reported_once {} orphanage fresh rfl built listed parsed distinct
  have unheard : Unheard {} (after {} orphanage).sources.values (.unnamed "Lost") := by
    have nowhere : ∀ s ∈ (after {} orphanage).sources.values, (s.tree? {}).all (fun tree =>
      !tree.topLevel.contains (.unnamed "Lost") && !tree.classNames.contains "Lost")
      = true := by decide +kernel
    have plain : (QName.unnamed "Lost").isBuiltin = false ∧ (QName.unnamed "Lost").text ≠ "*" := by
      decide +kernel
    apply And.intro plain.1
    apply And.intro plain.2
    intro s here tree read
    have absent := nowhere s here
    rw [read] at absent
    simpa [QName.text, QName.isUnnamed, QName.unnamed] using absent
  have found : Found {} (after {} orphanage).sources.values (.unnamed "B") := by
    have there : (after {} orphanage).sources.values.any (fun s => (s.tree? {}).any fun tree =>
      tree.topLevel.contains (.unnamed "B")) = true := by decide +kernel
    obtain ⟨s, here, read⟩ := List.any_eq_true.1 there
    obtain ⟨tree, htree, defined⟩ := (Option.any_eq_true _ _).1 read
    exact Or.inr ⟨s, here, tree, htree, List.contains_iff_mem.1 defined⟩
  have lost : p.Cites (.qualified (.unnamed "Lost")) := ⟨c, member, Or.inl (Or.inl base)⟩
  have other : p.Cites (.qualified (.unnamed "B")) := ⟨c', member', Or.inr ⟨t, trait, none, false, body⟩⟩
  refine ⟨fresh, listed, r, p, built, parsed, distinct, reported, unique, told, ?_, ?_⟩
  · apply (complete _ lost).1
    intro q candidate
    cases List.mem_singleton.1 candidate
    exact unheard
  · exact (complete _ other).2 ⟨_, List.mem_singleton_self _, found⟩

end Compilation

end AbcBuild
