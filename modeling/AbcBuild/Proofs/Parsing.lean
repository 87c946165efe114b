/-
Module: AbcBuild.Proofs.Parsing
Purpose: The first phase on any source, slot and context.  A unit that is known stays as it is, but for
  missing bytes.  A source that can be read makes a unit, and one that cannot is an error.
Main exports: Frontend.made?, Frontend.parse_of_known, Frontend.parses, Frontend.parse_fails_or_settles
-/
import AbcBuild.Proofs.Part

namespace AbcBuild

/-- The format of the source that a tree comes from. -/
def ParseTree.format : ParseTree → InputFormat
  | .abc _ => .abc
  | .properties _ => .properties

namespace Frontend

variable {f : Frontend} {source : Source} {slot : Option BuildUnit} {u : BuildUnit} {cx : Context}

/-- The unit with what the source holds entered, if the source can be read. -/
def made? (f : Frontend) (config : Config) (source : Source) (u : BuildUnit) : Option BuildUnit :=
  match f.format with
  | .abc =>
    (AbcFrontend.bytecode source).toOption.bind fun bytes => (Program.decode bytes).toOption.map
      fun program =>
      AbcFrontend.collect program { u with tree := some (.abc program), bytes := bytes }
  | .properties =>
    (BundleFrontend.readEntries source).toOption.map fun entries =>
      BundleFrontend.collect
        { locale := BundleFrontend.localeOf source config.locale
          bundle := source.shortName
          entries := entries } u

/-- What a source holds is a tree of the format; a block has bytes. -/
theorem made?_eq_some {config : Config} {u' : BuildUnit} (made : f.made? config source u = some u') :
    ∃ tree topLevel dependencies styles bytes, u' = { u with
        tree := some tree, topLevel := topLevel, dependencies := dependencies, styles := styles,
        bytes := bytes } ∧
      (∃ content, source.content = .ok content) ∧ tree.format = f.format ∧
        (f.format = .abc → bytes ≠ []) := by
  unfold made? at made
  split at made
  next abc =>
    obtain ⟨bytes, read, entered⟩ := Option.bind_eq_some_iff.1 made
    obtain ⟨program, -, rfl⟩ := Option.map_eq_some_iff.1 entered
    obtain ⟨content, filled⟩ := AbcFrontend.bytecode_eq_ok (toOption_eq_some.1 read)
    exact ⟨_, _, _, _, _, rfl, ⟨_, content⟩, abc.symm, fun _ => filled⟩
  next properties =>
    obtain ⟨entries, read, rfl⟩ := Option.map_eq_some_iff.1 made
    refine ⟨_, _, _, _, _, rfl, ?_, properties.symm, fun abc => ?_⟩
    · cases content : source.content with
      | error cause => simp [BundleFrontend.readEntries, Source.read, content, Except.toOption] at read
      | ok bytes => exact ⟨bytes, rfl⟩
    · cases abc.symm.trans properties

/-! ### Units that are known -/

/-- Of a unit that is known, only a block that is taken over is read again, and only for its bytes. -/
theorem parse_held (f : Frontend) (source : Source) (cx : Context)
    (known : (u.hasTypeInfo || u.tree.isSome) = true) :
    f.parse source (some u) cx =
      if f.format = .abc ∧ u.hasTypeInfo = true ∧ u.bytes = [] then
        match AbcFrontend.bytecode source with
        | .ok bytes => (true, some { u with bytes := bytes }, cx)
        | .error message => (true, some u, cx.report .error (some source.name) message)
      else (true, some u, cx) := by
  obtain ⟨format, extensions⟩ := f
  cases format with
  | abc =>
    simp only [parse, AbcFrontend.parse, Option.filter_some, known, if_true, true_and, AbcFrontend.copyBytes,
      Bool.and_eq_true, List.isEmpty_iff]
    split
    next => cases AbcFrontend.bytecode source <;> rfl
    next => rfl
  | properties => simp [parse, BundleFrontend.parse, Option.filter_some, known]

theorem parse_of_known (f : Frontend) (source : Source) (cx : Context)
    (known : (u.hasTypeInfo || u.tree.isSome) = true)
    (filled : f.format = .abc → u.hasTypeInfo = true → u.bytes ≠ []) :
    f.parse source (some u) cx = (true, some u, cx) := by
  rw [f.parse_held source cx known, if_neg]
  rintro ⟨abc, kept, missing⟩
  exact filled abc kept missing

/-! ### Sources to be read -/

section

variable (plain : f.extensions = []) (unknown : ∀ u ∈ slot, (u.hasTypeInfo || u.tree.isSome) = false)
include plain unknown

/-- A source that can be read makes a unit.  If there are errors before, a bundle is entered none the
    less. -/
theorem parse_made (made : f.made? cx.config source (slot.getD (.ofSource source)) = some u) :
    f.parse source slot cx
      = if f.format = .abc ∧ cx.hasErrors = true then (false, slot, cx) else (!cx.hasErrors,
        some u, cx) := by
  have new : slot.filter (fun u => u.hasTypeInfo || u.tree.isSome) = none :=
    Option.filter_eq_none_iff.2 fun u held => Bool.eq_false_iff.1 (unknown u held)
  have finished (phase : Phase) (u : BuildUnit) :
      Extension.runAll [] phase u cx = (!cx.hasErrors, u, cx) := by
    unfold Extension.runAll
    cases cx.hasErrors <;> rfl
  obtain ⟨format, extensions⟩ := f
  cases plain
  cases format with
  | abc =>
    obtain ⟨bytes, read, entered⟩ := Option.bind_eq_some_iff.1 made
    obtain ⟨program, decoded, rfl⟩ := Option.map_eq_some_iff.1 entered
    rw [toOption_eq_some] at read decoded
    simp only [parse, AbcFrontend.parse, new, AbcFrontend.readProgram, read, decoded, finished, true_and]
  | properties =>
    obtain ⟨entries, read, rfl⟩ := Option.map_eq_some_iff.1 made
    rw [toOption_eq_some] at read
    simp [parse, BundleFrontend.parse, new, read, finished]

/-- A source that cannot be read is an error, and the slot stays as it is. -/
theorem parse_unmade (unmade : f.made? cx.config source (slot.getD (.ofSource source)) = none) :
    ∃ cx', f.parse source slot cx = (false, slot, cx') ∧ cx'.hasErrors = true ∧
      (cx' = cx ∨ ∃ message, cx' = cx.report .error (some source.name) message) := by
  have new : slot.filter (fun u => u.hasTypeInfo || u.tree.isSome) = none :=
    Option.filter_eq_none_iff.2 fun u held => Bool.eq_false_iff.1 (unknown u held)
  have reported (message : Message) := cx.hasErrors_error (some source.name) message
  obtain ⟨format, extensions⟩ := f
  cases plain
  cases format with
  | abc =>
    have unread : ∃ cx', AbcFrontend.readProgram source cx = (none, cx') ∧ cx'.hasErrors = true ∧
        (cx' = cx ∨ ∃ message, cx' = cx.report .error (some source.name) message) := by
      unfold AbcFrontend.readProgram
      cases read : AbcFrontend.bytecode source with
      | error message => exact ⟨_, rfl, reported message, Or.inr ⟨message, rfl⟩⟩
      | ok bytes =>
        cases decoded : Program.decode bytes with
        | ok program => simp [made?, read, decoded, Except.toOption] at unmade
        | error e =>
          -- A second error is not added to those of other sources.
          refine ⟨_, by simp only [decoded]; rfl, ?_⟩
          split
          next failed => exact ⟨failed, Or.inl rfl⟩
          next => exact ⟨reported _, Or.inr ⟨_, rfl⟩⟩
    obtain ⟨cx', heq, failed, reports⟩ := unread
    refine ⟨cx', ?_, failed, reports⟩
    simp only [parse, AbcFrontend.parse, new, heq, failed, if_true]
  | properties =>
    simp only [parse, BundleFrontend.parse, new]
    cases read : BundleFrontend.readEntries source with
    | error message => exact ⟨_, rfl, reported message, Or.inr ⟨message, rfl⟩⟩
    | ok entries => simp [made?, read, Except.toOption] at unmade

end

/-! ### What the first phase can do -/

/-- What the first phase can make of the slot of a source. -/
inductive Parses (f : Frontend) (source : Source) (slot : Option BuildUnit) (cx : Context) :
    Bool × Option BuildUnit × Context → Prop where
  /-- The unit is there already; a block that is taken over gets its bytes if they are missing. -/
  | known {u : BuildUnit} (bytes : List UInt8) (held : slot = some u)
      (isKnown : (u.hasTypeInfo || u.tree.isSome) = true)
      (filled : f.format = .abc → u.hasTypeInfo = true → bytes ≠ [])
      (kept : f.format = .properties ∨ u.bytes ≠ [] → bytes = u.bytes) :
      Parses f source slot cx (true, some { u with bytes := bytes }, cx)
  /-- The unit is made of a source that can be read. -/
  | new {ok : Bool} {tree : ParseTree} {topLevel : List QName} {dependencies : Dependencies}
      {styles : StyleTable} {bytes : List UInt8} (unknown : ∀ u ∈ slot,
        (u.hasTypeInfo || u.tree.isSome) = false)
      (went : cx.hasErrors = false → ok = true) (readable : ∃ content, source.content = .ok content)
      (fits : tree.format = f.format) (filled : f.format = .abc → bytes ≠ []) :
      Parses f source slot cx (ok, some { slot.getD (BuildUnit.ofSource source) with
        tree := some tree, topLevel := topLevel, dependencies := dependencies, styles := styles,
        bytes := bytes }, cx)
  /-- There are errors, and the slot is as it was. -/
  | failed {ok : Bool} {cx' : Context} (failed : cx'.hasErrors = true) : Parses f source slot cx
    (ok, slot, cx')

/-- The first phase keeps a unit that is known, makes one, or fails.  It changes nothing but the log, to
    which it may add an error. -/
theorem parses (plain : f.extensions = []) (source : Source) (slot : Option BuildUnit) (cx : Context) :
    f.Parses source slot cx (f.parse source slot cx) ∧
      ((f.parse source slot cx).2.2 = cx ∨
        ∃ message, (f.parse source slot cx).2.2 = cx.report .error (some source.name) message) := by
  cases known : slot.filter fun u => u.hasTypeInfo || u.tree.isSome with
  | some u =>
    obtain ⟨rfl, isKnown⟩ := Option.filter_eq_some_iff.1 known
    rw [f.parse_held source cx isKnown]
    split
    next lacks =>
      obtain ⟨abc, -, missing⟩ := lacks
      cases read : AbcFrontend.bytecode source with
      | ok bytes =>
        refine ⟨.known bytes rfl isKnown (fun _ _ => (AbcFrontend.bytecode_eq_ok read).2) (fun given => ?_),
          Or.inl rfl⟩
        rcases given with other | some
        · cases abc.symm.trans other
        · exact (some missing).elim
      | error message => exact ⟨.failed (cx.hasErrors_error _ message), Or.inr ⟨message, rfl⟩⟩
    next there =>
      exact ⟨.known u.bytes rfl isKnown (fun abc kept none => there ⟨abc, kept, none⟩) fun _ =>
        rfl, Or.inl rfl⟩
  | none =>
    have unknown : ∀ u ∈ slot, (u.hasTypeInfo || u.tree.isSome) = false := fun u held =>
      Bool.eq_false_iff.2 (Option.filter_eq_none_iff.1 known u held)
    cases made : f.made? cx.config source (slot.getD (.ofSource source)) with
    | none =>
      obtain ⟨cx', heq, failed, reports⟩ := parse_unmade plain unknown made
      rw [heq]
      exact ⟨.failed failed, reports⟩
    | some u =>
      obtain ⟨tree, topLevel, dependencies, styles, bytes, rfl, readable, fits, filled⟩ := made?_eq_some made
      rw [parse_made plain unknown made]
      split
      next stopped => exact ⟨.failed stopped.2, Or.inl rfl⟩
      next => exact ⟨.new unknown (fun ok => by rw [ok]; rfl) readable fits filled, Or.inl rfl⟩

/-- The first phase finishes no unit. -/
theorem Parses.done {made : Bool × Option BuildUnit × Context} (h : f.Parses source slot cx made) :
    ∀ u ∈ made.2.1, u.done = true → ∃ u₀ ∈ slot, u₀.done = true := by
  intro u there done
  cases h with
  | known bytes held =>
    cases there
    exact ⟨_, held, done⟩
  | new =>
    cases there
    cases slot with
    | none => cases done
    | some u₀ => exact ⟨u₀, rfl, done⟩
  | failed => exact ⟨u, there, done⟩

/-! ### Failing, and trying again -/

theorem isSome_made? (f : Frontend) (properties : f.format = .properties) (config : Config) (source : Source)
    (u : BuildUnit) : (f.made? config source u).isSome = (BundleFrontend.readEntries source).isOk := by
  simp only [made?, properties]
  cases BundleFrontend.readEntries source <;> rfl

/-- The unit that a source makes is known from then on. -/
theorem parse_made_again {config : Config} (unknown : ∀ u ∈ slot, (u.hasTypeInfo || u.tree.isSome) = false)
    (made : f.made? config source (slot.getD (.ofSource source)) = some u) (cx : Context) :
    some u ≠ slot ∧ f.parse source (some u) cx = (true, some u, cx) := by
  obtain ⟨tree, topLevel, dependencies, styles, bytes, rfl, -, -, filled⟩ := made?_eq_some made
  have known {before : BuildUnit} : (before.hasTypeInfo || (some tree).isSome) = true := Bool.or_true _
  refine ⟨fun same => ?_, f.parse_of_known source cx known fun abc _ => filled abc⟩
  cases known.symm.trans (unknown _ same.symm)

/-- The first phase fails only with an error, and then leaves the slot as it was, unless the source is a
    bundle that can be read and there were errors before.  Where it goes on without an error, a second run
    changes nothing. -/
theorem parse_fails_or_settles (format : InputFormat) (source : Source) (slot : Option BuildUnit)
    (cx : Context) :
    let f : Frontend := { format := format }
    let done := f.parse source slot cx
    (done.1 = false → done.2.2.hasErrors = true ∧
        (done.2.1 ≠ slot ↔ format = .properties ∧ cx.hasErrors = true ∧
          (∀ u ∈ slot, (u.hasTypeInfo || u.tree.isSome) = false) ∧
          (BundleFrontend.readEntries source).isOk = true)) ∧
      (done.1 = true → done.2.1.isSome = true ∧
        (done.2.2.log.errors = cx.log.errors → f.parse source done.2.1 done.2.2 = (true, done.2.1,
        done.2.2))) := by
  intro f done
  cases known : slot.filter fun u => u.hasTypeInfo || u.tree.isSome with
  | some u =>
    obtain ⟨rfl, isKnown⟩ := Option.filter_eq_some_iff.1 known
    have held : done = _ := f.parse_held source cx isKnown
    split at held
    next lacks =>
      cases read : AbcFrontend.bytecode source with
      | ok bytes =>
        rw [read] at held
        rw [held]
        refine ⟨fun failed => (nomatch failed), fun _ => ⟨rfl, fun _ => ?_⟩⟩
        exact f.parse_of_known source cx isKnown fun _ _ => (AbcFrontend.bytecode_eq_ok read).2
      | error message =>
        rw [read] at held
        rw [held]
        exact ⟨fun failed => (nomatch failed), fun _ => ⟨rfl, fun quiet => (Nat.succ_ne_self _ quiet).elim⟩⟩
    next filled =>
      rw [held]
      refine ⟨fun failed => (nomatch failed), fun _ => ⟨rfl, fun _ => ?_⟩⟩
      exact f.parse_of_known source cx isKnown fun abc kept none => filled ⟨abc, kept, none⟩
  | none =>
    have unknown : ∀ u ∈ slot, (u.hasTypeInfo || u.tree.isSome) = false := fun u held =>
      Bool.eq_false_iff.2 (Option.filter_eq_none_iff.1 known u held)
    cases made : f.made? cx.config source (slot.getD (.ofSource source)) with
    | none =>
      obtain ⟨cx', heq, failed, -⟩ := parse_unmade rfl unknown made
      have heq : done = _ := heq
      rw [heq]
      refine ⟨fun _ => ⟨failed, fun changed => (changed rfl).elim, ?_⟩, fun ok => (nomatch ok)⟩
      rintro ⟨properties, -, -, readable⟩
      rw [← f.isSome_made? properties cx.config source (slot.getD (.ofSource source)), made] at readable
      cases readable
    | some u =>
      obtain ⟨changed, again⟩ := parse_made_again unknown made cx
      have heq : done = _ := parse_made rfl unknown made
      split at heq
      next stopped =>
        rw [heq]
        refine ⟨fun _ => ⟨stopped.2, fun changed => (changed rfl).elim, ?_⟩, fun ok => (nomatch ok)⟩
        rintro ⟨properties, -⟩
        cases stopped.1.symm.trans properties
      next entered =>
        rw [heq]
        refine ⟨fun failed => ?_, fun _ => ⟨rfl, fun _ => again⟩⟩
        have failed : cx.hasErrors = true := by simpa using failed
        have properties : format = .properties := by
          cases format with
          | abc => exact (entered ⟨rfl, failed⟩).elim
          | properties => rfl
        refine ⟨failed, fun _ => ⟨properties, failed, unknown, ?_⟩, fun _ => changed⟩
        rw [← f.isSome_made? properties cx.config source (slot.getD (.ofSource source)), made]
        rfl

/-- A bundle is in its slot although the phase fails, if another source has an error. -/
theorem bundle_entered_despite_error :
    let source : Source :=
      { name := "d.properties", parent := "", mime := Mime.properties, content := .ok [] }
    let cx := (Context.start {} {}).report .error (some "a.abc") .noBytecode
    let done := ({ format := .properties } : Frontend).parse source none cx
    done.1 = false ∧ done.2.1.isSome = true := by
  decide

end Frontend

end AbcBuild
