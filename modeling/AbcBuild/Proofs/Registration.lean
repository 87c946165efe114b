/-
Module: AbcBuild.Proofs.Registration
Purpose: What the registration of a bundle makes of the symbols of a build, whether it is refused or not.
  The names are noted one after the other until another source is in the way; the bundle itself is entered
  after all of them.
Main exports: Registry.free, Registry.admitted, Registry.registerBundle_eq,
  Registry.refused_bundle_keeps_noted_names
-/
import Mathlib.Data.List.TakeWhile
import AbcBuild.Registry
import AbcBuild.Proofs.Table

namespace AbcBuild

namespace Registry

variable (r : Registry) (source : String)

/-- No other source defines the name. -/
def free (name : QName) : Bool := (r.definedIn? name).all (· = source)

/-- The refusal of a name that another source defines. -/
def refusal? (name : QName) : Option RegistryError :=
  if r.free source name then none else (r.definedIn? name).map (.duplicateDefinition name · source)

/-- The registry with names noted for a source. -/
def noting (names : List QName) : Registry :=
  { r with definitions := r.definitions.insertAll (names.map (·, source)) }

/-- The names before the first one of another source.  For a bundle of another source there are none. -/
def admitted (bundle : String) (names : List QName) : List QName :=
  if (r.bundleSources.get? bundle).all (· = source) then names.takeWhile (r.free source) else []

variable {r source} {name : QName}

theorem free_iff :
    r.free source name = true ↔ ∀ owner ∈ r.definitions.get? name, owner = source := by
  unfold free definedIn?
  cases r.definitions.get? name <;> simp

@[simp] theorem refusal?_eq_none_iff : r.refusal? source name = none ↔ r.free source name = true := by
  unfold refusal? free
  cases r.definedIn? name <;> simp

@[simp] theorem definedIn?_noting (r : Registry) (source : String) (names : List QName) (name : QName) :
    (r.noting source names).definedIn? name = if name ∈ names then some source else r.definedIn? name := by
  induction names generalizing r with
  | nil => rfl
  | cons first rest ih =>
    have step : (r.noting source (first :: rest)) = (r.noting source [first]).noting source rest := rfl
    have here : (r.noting source [first]).definedIn? name
        = if first = name then some source else r.definedIn? name := Table.get?_insert ..
    rw [step, ih, here]
    by_cases later : name ∈ rest
    · simp [later]
    · simp [later, eq_comm]

theorem noting_eq_self_iff {names : List QName} :
    r.noting source names = r ↔ ∀ name ∈ names, r.definedIn? name = some source := by
  constructor
  · intro same name listed
    rw [← same, definedIn?_noting, if_pos listed]
  · intro held
    have entered : r.definitions.insertAll (names.map (·, source)) = r.definitions := by
      apply Table.insertAll_of_get?
      intro entry listed
      obtain ⟨name, member, rfl⟩ := List.mem_map.1 listed
      exact held name member
    rw [noting, entered]

theorem define_eq (name : QName) : r.define name source
    = match r.refusal? source name with
      | some e => .error e
      | none => .ok (r.noting source [name]) := by
  unfold define refusal? free definedIn?
  cases found : r.definitions.get? name with
  | none => rfl
  | some owner =>
    by_cases own : owner = source
    · -- What is noted already is not noted twice.
      have again : r.noting source [name] = r := noting_eq_self_iff.2 (by simp [definedIn?, found, own])
      simp [own, again]
    · simp [own]

/-- Noting a free name leaves the others as free as they were. -/
theorem refusal?_noting (admits : r.free source name = true) :
    (r.noting source [name]).refusal? source = r.refusal? source := by
  funext other
  by_cases same : other = name
  · subst same
    rw [refusal?_eq_none_iff.2 admits, refusal?_eq_none_iff, free, definedIn?_noting]
    simp
  · have kept : (r.noting source [name]).definedIn? other = r.definedIn? other := by
      rw [definedIn?_noting, if_neg (by simpa using same)]
    rw [refusal?, refusal?, free, free, kept]

theorem free_noting (admits : r.free source name = true) :
    (r.noting source [name]).free source = r.free source := by
  funext other
  rw [Bool.eq_iff_iff, ← refusal?_eq_none_iff, ← refusal?_eq_none_iff, refusal?_noting admits]

theorem not_free_of_refusal? {e : RegistryError} (refused : r.refusal? source name = some e) :
    r.free source name = false := by
  rw [← Bool.not_eq_true, ← refusal?_eq_none_iff, refused]
  exact Option.some_ne_none e

/-- All names that are free are noted, and each of the others is refused. -/
theorem defineAll_eq (r : Registry) (source : String) (names : List QName) : r.defineAll source names
    = (r.noting source (names.filter (r.free source)), names.filterMap (r.refusal? source)) := by
  induction names generalizing r with
  | nil => rfl
  | cons name rest ih =>
    rw [defineAll, define_eq]
    cases refused : r.refusal? source name with
    | some e =>
      simp only [ih, List.filter_cons, not_free_of_refusal? refused, Bool.false_eq_true, if_false,
        List.filterMap_cons, refused]
    | none =>
      have admits : r.free source name = true := refusal?_eq_none_iff.1 refused
      simp only [ih, free_noting admits, refusal?_noting admits, List.filter_cons, admits,
        List.filterMap_cons, refused]
      rfl

/-- Names are noted that no one has defined, and those are refused that another source has. -/
theorem defineAll_answers (r : Registry) (source : String) (names : List QName) :
    ∃ definitions errors, r.defineAll source names = ({ r with definitions := definitions }, errors) ∧
      (errors = [] ↔ ∀ name ∈ names, ∀ existing ∈ r.definitions.get? name, existing = source) ∧
      ∀ asked, definitions.get? asked
        = (r.definitions.get? asked).or (if asked ∈ names then some source else none) := by
  refine ⟨_, _, r.defineAll_eq source names, ?_, fun asked => ?_⟩
  · simp only [List.filterMap_eq_nil_iff, refusal?_eq_none_iff, free_iff]
  · refine (r.definedIn?_noting source (names.filter (r.free source)) asked).trans ?_
    simp only [List.mem_filter, free_iff, definedIn?]
    by_cases listed : asked ∈ names
    · cases known : r.definitions.get? asked <;> simp [listed, eq_comm]
    · simp [listed]

/-- Names are noted up to the first that is refused. -/
theorem defineUntil_eq (names : List QName) : r.defineUntil source names
    = (r.noting source (names.takeWhile (r.free source)), names.findSome? (r.refusal? source)) := by
  induction names generalizing r with
  | nil => rfl
  | cons name rest ih =>
    rw [defineUntil, define_eq]
    cases refused : r.refusal? source name with
    | some e =>
      simp only [List.takeWhile_cons, not_free_of_refusal? refused, Bool.false_eq_true, if_false,
        List.findSome?_cons, refused]
      rfl
    | none =>
      have admits : r.free source name = true := refusal?_eq_none_iff.1 refused
      simp only [ih, free_noting admits, refusal?_noting admits, List.takeWhile_cons, admits,
        List.findSome?_cons, refused]
      rfl

/-- What stands in the way of a bundle: another source that has it, or one that defines a name of it. -/
def bundleRefusal? (r : Registry) (source bundle : String) (names : List QName) : Option RegistryError :=
  (((r.bundleSources.get? bundle).filter (· ≠ source)).map (.duplicateBundle bundle ·)).or
    (names.findSome? (r.refusal? source))

variable {bundle : String} {names : List QName}

theorem bundleRefusal?_eq_none_iff : r.bundleRefusal? source bundle names = none ↔
    (r.bundleSources.get? bundle).all (· = source) = true ∧ names.all (r.free source) = true := by
  have own : ((r.bundleSources.get? bundle).filter (· ≠ source)).map
      (RegistryError.duplicateBundle bundle ·) = none ↔
        (r.bundleSources.get? bundle).all (· = source) = true := by
    cases r.bundleSources.get? bundle <;> simp
  rw [bundleRefusal?, Option.or_eq_none_iff, own, List.findSome?_eq_none_iff, List.all_eq_true]
  simp only [refusal?_eq_none_iff]

/-- Registering a bundle notes the admitted names.  The bundle is entered if nothing stands in the way. -/
theorem registerBundle_eq (r : Registry) (bundle : String) (names : List QName) (source : String) :
    r.registerBundle bundle names source =
      match r.bundleRefusal? source bundle names with
      | some e => (r.noting source (r.admitted source bundle names), some e)
      | none =>
        ({ r.noting source (r.admitted source bundle names) with
          bundleSources := r.bundleSources.insert bundle source
          bundleNames := r.bundleNames.insert bundle names }, none) := by
  have named : r.defineUntil source names = (r.noting source (names.takeWhile (r.free source)),
      names.findSome? (r.refusal? source)) := defineUntil_eq names
  unfold registerBundle bundleRefusal? admitted
  cases found : r.bundleSources.get? bundle with
  | none =>
    simp only [named, Option.any_none, Bool.false_eq_true, if_false, Option.filter_none, Option.map_none,
      Option.none_or, Option.all_none, if_true]
    cases names.findSome? (r.refusal? source) <;> rfl
  | some owner =>
    by_cases own : owner = source
    · subst own
      simp only [named, Option.any_some, ne_eq, not_true_eq_false, decide_false,
        Bool.false_eq_true, if_false, Option.filter_some, Option.map_none, Option.none_or, Option.all_some,
        decide_true, if_true]
      cases names.findSome? (r.refusal? owner) <;> rfl
    · simp only [own, Option.any_some, ne_eq, not_false_eq_true, decide_true, if_true, Option.map_some,
        Option.filter_some, Option.some_or, Option.all_some, decide_false, Bool.false_eq_true, if_false]
      rfl

theorem free_of_admitted (listed : name ∈ r.admitted source bundle names) :
    r.free source name = true := by
  unfold admitted at listed
  split at listed
  next => exact List.mem_takeWhile_imp listed
  next => cases listed

/-- A bundle is refused exactly if another source has it or defines one of its names.  Of a refused bundle
    the names before the obstacle stay noted, and nothing else does: all is as before only if they were noted
    already.  An accepted bundle has all its names.  No name goes over to another source either way. -/
theorem refused_bundle_keeps_noted_names (r : Registry) (bundle : String) (names : List QName)
    (source : String) :
    let done := r.registerBundle bundle names source
    (done.2 = none ↔ (r.bundleSources.get? bundle).all (· = source) = true ∧
      names.all (r.free source) = true) ∧ (∀ name, done.1.definedIn? name
        = if name ∈ r.admitted source bundle names then some source else r.definedIn? name) ∧
      (∀ name owner, r.definedIn? name = some owner → done.1.definedIn? name = some owner) ∧
      (done.2 ≠ none → done.1 = { r with definitions := done.1.definitions } ∧
        (done.1 = r ↔ ∀ name ∈ r.admitted source bundle names, r.definedIn? name = some source)) ∧
      (done.2 = none → (∀ name ∈ names, done.1.definedIn? name = some source) ∧
        done.1 = { r with
          definitions := done.1.definitions
          bundleSources := r.bundleSources.insert bundle source
          bundleNames := r.bundleNames.insert bundle names }) := by
  have noted (name : QName) : (r.noting source (r.admitted source bundle names)).definedIn? name = _ :=
    r.definedIn?_noting source _ name
  have kept (name : QName) (owner : String) (held : r.definedIn? name = some owner) :
      (r.noting source (r.admitted source bundle names)).definedIn? name = some owner := by
    rw [noted]
    split
    next listed =>
      rw [free_iff.1 (free_of_admitted listed) owner held]
    next => exact held
  intro done
  have iff : r.bundleRefusal? source bundle names = none ↔ _ := bundleRefusal?_eq_none_iff
  have made : done = _ := r.registerBundle_eq bundle names source
  cases refused : r.bundleRefusal? source bundle names with
  | some e =>
    rw [refused] at made iff
    rw [made]
    exact ⟨iff, noted, kept, fun _ => ⟨rfl, noting_eq_self_iff⟩, fun none => nomatch none⟩
  | none =>
    rw [refused] at made iff
    rw [made]
    obtain ⟨own, all⟩ := iff.1 rfl
    have whole : r.admitted source bundle names = names := by
      rw [admitted, if_pos own, List.takeWhile_eq_self_iff.2 (List.all_eq_true.1 all)]
    refine ⟨iff, noted, kept, fun some => (some rfl).elim, fun _ => ⟨fun name listed => ?_, rfl⟩⟩
    rw [← whole] at listed
    exact (noted name).trans (if_pos listed)

/-- A name before the obstacle stays with the source that was refused. -/
theorem refused_bundle_leaves_name :
    let r : Registry := { untyped := 0, generation := 0, definitions := .ofList [(⟨"b", "B"⟩, "t")] }
    (r.registerBundle "core" [⟨"a", "A"⟩, ⟨"b", "B"⟩] "s").2 ≠ none ∧ r.definedIn? ⟨"a", "A"⟩ = none ∧
      (r.registerBundle "core" [⟨"a", "A"⟩, ⟨"b", "B"⟩] "s").1.definedIn? ⟨"a", "A"⟩ = some "s" := by
  decide

end Registry

end AbcBuild
