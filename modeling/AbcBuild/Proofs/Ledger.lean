/-
Module: AbcBuild.Proofs.Ledger
Purpose: What the parts of a build have published so far, told by the parts alone.  A build follows its
  ledger whether a unit is worked on or taken over from an earlier build.
Main exports: Ledger, Ledger.publish, Ledger.Publishes, Ledger.Follows.publish
-/
import AbcBuild.Proofs.Publishing
import AbcBuild.Proofs.Registration

namespace AbcBuild

variable {file : PropertiesFile} {store : ClassStore} {classes table : Table String ClassId} {key : String}

/-- What parts have published: the sources of bundles, styles, and for each class the part that published it
    last. -/
structure Ledger (config : Config) where
  bundles : Table String String := .empty
  styles : StyleTable := .empty
  classes : Table String (Part config) := .empty

namespace Ledger

variable {config : Config}

/-- Publish a part.  A conflict between styles is refused if the settings call it an error, a bundle if
    another source has published one of its name. -/
def publish (l : Ledger config) (part : Part config) : Option (Ledger config) :=
  let classes := l.classes.insertAll (part.tree.classNames.map fun name => (name, part))
  match part.tree with
  | .abc _ =>
    let (styles, conflict) := StyleTable.addAll l.styles part.tree.styles
    if conflict.isSome && decide (config.styleSeverity = .error) then none
    else some { l with classes := classes, styles := styles }
  | .properties file =>
    if (l.bundles.get? file.bundleKey).any (· ≠ part.source.name) then none
    else some { l with classes := classes, bundles := l.bundles.insert file.bundleKey part.source.name }

/-- Publish parts one after the other. -/
def publishAll (l : Ledger config) (parts : List (Part config)) : Option (Ledger config) :=
  parts.foldlM publish l

/-- Each class has a descriptor that shows it as the part tells that is known to have published it, in a
    scope that the basis of the build admits for that part. -/
structure Lists (b : Basis config) (known : Table String (Part config)) (store : ClassStore)
    (classes : Table String ClassId) : Prop where
  keys : classes.keys = known.keys
  shown : ∃ scope : Part config → Scope, ∀ name id, classes.get? name = some id → ∃ part d,
    known.get? name = some part ∧ store.Publishes id d ∧
      part.tree.shown? (scope part) part.source.name name = some d ∧ b.admits part (scope part)

variable {b : Basis config}

/-- Before anything is published. -/
theorem Lists.nil (empty : classes = .empty) : Lists b .empty store classes := by
  subst empty
  exact ⟨rfl, fun _ => ⟨fun _ => false, fun _ => false, fun _ => false, fun _ => id⟩,
    fun _ _ none => by cases none⟩

/-- A list of classes stays right as the store grows: no identity changes its descriptor, and the scopes are
    the same. -/
theorem Lists.mono {known : Table String (Part config)} {store' : ClassStore}
    (h : Lists b known store classes) (more : store.Extends store') :
    Lists b known store' classes where
  keys := h.keys
  shown := by
    obtain ⟨scope, shown⟩ := h.shown
    refine ⟨scope, fun name id hid => ?_⟩
    obtain ⟨part, d, hpart, hd, rest⟩ := shown name id hid
    exact ⟨part, d, hpart, hd.mono more, rest⟩

theorem lookup_names (name : String) (part : Part config) (names : List String) :
    Table.lookup name (names.map fun name => (name, part)) = if name ∈ names then some part else none := by
  induction names with
  | nil => rfl
  | cons first rest ih =>
    by_cases here : first = name
    · simp [Table.lookup, here]
    · have other : name ≠ first := fun h => here h.symm
      simp [Table.lookup, here, other, ih]

variable {l l' : Ledger config} {part : Part config}

/-- Classes that a part adds are known to be its own. -/
theorem Lists.adopt {known : Table String (Part config)} {store' : ClassStore}
    {classes' : Table String ClassId} {s : Scope} (h : Lists b known store classes)
    (more : store.Extends store') (published : part.Published s store' table) (admitted : b.admits part s)
    (adopts : classes.Adopts table classes') :
    Lists b (known.insertAll (part.tree.classNames.map fun name => (name, part))) store' classes' where
  keys := by
    have names : (part.tree.classNames.map fun name => (name, part)).map Prod.fst
        = part.tree.classNames := by
      rw [List.map_map]
      exact List.map_id _
    rw [adopts.keys, published.keys, Table.enter_enter, Table.keys_insertAll, names, h.keys]
    rfl
  shown := by
    classical
    obtain ⟨scope, shown⟩ := h.shown
    refine ⟨Function.update scope part s, fun name id hid => ?_⟩
    have named : name ∈ table.keys ↔ name ∈ part.tree.classNames := by
      rw [published.keys, Table.mem_enter]
      simp
    rw [adopts.get?, Option.or_eq_some_iff] at hid
    rw [Table.get?_insertAll, ← List.map_reverse, lookup_names]
    rcases hid with own | ⟨absent, old⟩
    · have present : name ∈ part.tree.classNames :=
        named.1 ((Table.isSome_get? table name).1 (by rw [own]; rfl))
      obtain ⟨d, hd, -, shows⟩ := published.shows name id own
      rw [if_pos (List.mem_reverse.2 present)]
      refine ⟨part, d, rfl, hd, ?_⟩
      rw [Function.update_self]
      exact ⟨shows, admitted⟩
    · have missing : name ∉ part.tree.classNames := by
        intro present
        have found := (Table.isSome_get? table name).2 (named.2 present)
        rw [absent] at found
        cases found
      obtain ⟨owner, d, howner, hd, shows, admitted'⟩ := shown name id old
      have other : owner ≠ part := by
        rintro rfl
        exact missing (ParseTree.mem_classNames_of_shown? shows)
      rw [if_neg (fun h => missing (List.mem_reverse.1 h))]
      refine ⟨owner, d, howner, hd.mono more, ?_⟩
      rw [Function.update_of_ne other]
      exact ⟨shows, admitted'⟩

/-- A part that publishes adds its classes to the ledger, each under its name. -/
theorem classes_publish (h : l.publish part = some l') :
    l'.classes = l.classes.insertAll (part.tree.classNames.map fun name => (name, part)) := by
  unfold publish at h
  split at h <;> dsimp only at h <;> split at h <;> cases h <;> rfl

/-- The classes are those of the parts that were published. -/
theorem mem_keys_publishAll {parts : List (Part config)} (h : l.publishAll parts = some l') (name : String) :
    name ∈ l'.classes.keys ↔ name ∈ l.classes.keys ∨ ∃ part ∈ parts, name ∈ part.tree.classNames := by
  induction parts generalizing l with
  | nil =>
    cases h
    simp
  | cons first rest ih =>
    obtain ⟨l₁, published, later⟩ := Option.bind_eq_some_iff.1 h
    rw [ih later, classes_publish published, Table.keys_insertAll, Table.mem_enter]
    simp [or_assoc]

/-- Every class is known to be that of a part that was published. -/
theorem mem_of_publishAll {parts : List (Part config)} (h : l.publishAll parts = some l') {name : String}
    (found : l'.classes.get? name = some part) : part ∈ parts ∨ l.classes.get? name = some part := by
  induction parts generalizing l with
  | nil =>
    cases h
    exact Or.inr found
  | cons first rest ih =>
    obtain ⟨l₁, published, later⟩ := Option.bind_eq_some_iff.1 h
    rcases ih later with member | known
    · exact Or.inl (.tail _ member)
    · rw [classes_publish published, Table.get?_insertAll, ← List.map_reverse, lookup_names] at known
      rcases Option.or_eq_some_iff.1 known with own | ⟨-, old⟩
      · split at own
        next =>
          cases own
          exact Or.inl (.head _)
        next => cases own
      · exact Or.inr old

/-- A build has published what the ledger tells. -/
structure Follows (b : Basis config) (l : Ledger config) (cx : Context) : Prop where
  ok : cx.hasErrors = false
  bundles : cx.registry.bundleSources = l.bundles
  styles : cx.registry.styles = l.styles
  classes : Lists b l.classes cx.store cx.registry.classes

end Ledger

/-! ### The classes of a part -/

namespace Part

variable {config : Config} {b : Basis config} {part : Part config} {s : Scope} {u : BuildUnit} {cx : Context}

theorem Published.distinct (h : part.Published s store table) :
    table.keys.Nodup := by
  rw [h.keys]
  exact Table.nodup_enter List.nodup_nil _

theorem Published.names (h : part.Published s store table) :
    Names store table.entries := by
  intro entry hentry
  obtain ⟨d, hd, hname, -⟩ := h.shows entry.1 entry.2 ((Table.get?_eq_some_iff h.distinct).2 hentry)
  exact ⟨d, hd.descriptor, hname⟩

/-- Keys looked up in two lists of related entries give related values. -/
theorem lookup_forall₂ {α β : Type} {R : α → β → Prop} {first : List (String × α)}
    {second : List (String × β)} (h : List.Forall₂ (fun a b => b.1 = a.1 ∧ R a.2 b.2) first second)
    {value : β}
    (hvalue : Table.lookup key second = some value) : ∃ a, Table.lookup key first = some a ∧ R a value := by
  induction h with
  | nil => cases hvalue
  | @cons a b _ _ hab _ ih =>
    obtain ⟨k, v⟩ := a
    obtain ⟨k', w⟩ := b
    obtain ⟨hkey, hrel⟩ := hab
    cases hkey
    by_cases here : k = key
    · rw [Table.lookup, if_pos here] at hvalue
      cases hvalue
      exact ⟨v, by rw [Table.lookup, if_pos here], hrel⟩
    · rw [Table.lookup, if_neg here] at hvalue
      obtain ⟨a, ha, hrel⟩ := ih hvalue
      exact ⟨a, by rw [Table.lookup, if_neg here]; exact ha, hrel⟩

theorem forall₂_fst {α β : Type} {R : α → β → Prop} {first : List (String × α)} {second : List (String × β)}
    (h : List.Forall₂ (fun a b => b.1 = a.1 ∧ R a.2 b.2) first second) :
    second.map Prod.fst = first.map Prod.fst := by
  induction h with
  | nil => rfl
  | cons hab _ ih => rw [List.map_cons, List.map_cons, hab.1, ih]

theorem forall₂_chain {α β γ : Type} {R : α → β → Prop} {S : β → γ → Prop} {as : List α} {bs : List β}
    {cs : List γ} (h : List.Forall₂ R as bs) (h' : List.Forall₂ S bs cs) :
    List.Forall₂ (fun a c => ∃ b, R a b ∧ S b c) as cs := by
  induction h generalizing cs with
  | nil =>
    cases h'
    exact List.Forall₂.nil
  | cons hab _ ih =>
    cases h' with
    | cons hbc hrest => exact List.Forall₂.cons ⟨_, hab, hbc⟩ (ih hrest)

end Part

namespace Program

variable {p : Program} {R : Nat × ClassDef → ClassDescriptor → Prop}

/-- A table has the classes of a program under their names, each with a descriptor that is related to it. -/
structure Lists (p : Program) (R : Nat × ClassDef → ClassDescriptor → Prop) (store : ClassStore)
    (table : Table String ClassId) : Prop where
  keys : table.keys = Table.enter [] (p.classes.map fun c => c.name.text)
  shows : ∀ name id, table.get? name = some id →
    ∃ placed d, p.lastNamed? name = some placed ∧ R placed d ∧ store.Publishes id d

/-- Descriptors that are stored make a table. -/
theorem lists_of_stored {descriptors : List ClassDescriptor} {entries : List (String × ClassId)}
    (made : List.Forall₂ R (indexed p.classes) descriptors)
    (named : ∀ placed d, R placed d → d.name = placed.2.name.text)
    (stored : List.Forall₂ (fun d entry => entry.1 = d.name ∧ store.Publishes entry.2 d)
      descriptors entries) :
    p.Lists R store (Table.empty.insertAll entries) := by
  have related : List.Forall₂ (fun a b => b.1 = a.1 ∧ ∃ d, R a.2 d ∧ store.Publishes b.2 d)
      ((indexed p.classes).map fun placed => (placed.2.name.text, placed)) entries := by
    refine List.forall₂_map_left_iff.2 ((Part.forall₂_chain made stored).imp fun placed entry both => ?_)
    obtain ⟨d, holds, name, publishes⟩ := both
    exact ⟨name.trans (named placed d holds), d, holds, publishes⟩
  refine ⟨?_, fun name id hid => ?_⟩
  · have names : entries.map Prod.fst = p.classes.map fun c => c.name.text := by
      rw [Part.forall₂_fst (R := fun placed id => ∃ d, R placed d ∧ store.Publishes id d) related,
        List.map_map]
      conv_rhs => rw [← snd_indexed p.classes, List.map_map]
      rfl
    rw [Table.keys_insertAll, names]
    rfl
  · rw [Table.get?_insertAll] at hid
    have found : Table.lookup name entries.reverse = some id := by
      rcases Option.or_eq_some_iff.1 hid with h | ⟨-, none⟩
      · exact h
      · cases none
    obtain ⟨placed, last, d, holds, publishes⟩ := Part.lookup_forall₂
      (R := fun placed id => ∃ d, R placed d ∧ store.Publishes id d) (List.rel_reverse related) found
    exact ⟨placed, d, last, holds, publishes⟩

end Program

namespace Part

variable {config : Config} {b : Basis config} {part : Part config} {s : Scope} {u : BuildUnit} {cx : Context}
  {p : Program}

/-- Descriptors that present the classes of a block publish it. -/
theorem published_of_presents (htree : part.tree = .abc p) {descriptors : List ClassDescriptor}
    {entries : List (String × ClassId)}
    (presents : List.Forall₂ (fun placed => Publication.Presents p s part.source.name placed
      (Program.members placed.1 placed.2)) (Program.indexed p.classes) descriptors)
    (stored : List.Forall₂ (fun d entry => entry.1 = d.name ∧ store.Publishes entry.2 d)
      descriptors entries) :
    part.Published s store (Table.empty.insertAll entries) := by
  have lists := Program.lists_of_stored presents (fun _ _ presented => presented.name) stored
  refine ⟨by rw [lists.keys, htree]; rfl, fun name id hid => ?_⟩
  obtain ⟨⟨index, c⟩, d, last, presented, hd⟩ := lists.shows name id hid
  rw [presented.shows (Program.lastOf?_of_lastNamed? last)] at hd
  refine ⟨_, hd, (Program.mem_of_lastNamed? last).2, ?_⟩
  rw [htree, ParseTree.shown?, last, Option.map_some]

/-- A bundle has published its one class once that is stored and entered. -/
theorem published_of_file (htree : part.tree = .properties file) (s : Scope) {id : ClassId}
    (stored : store.Publishes id (BundleFrontend.descriptorOf file part.source.name)) :
    part.Published s store (Table.empty.insertAll [(file.className.text, id)]) where
  keys := by
    rw [htree]
    rfl
  shows := by
    intro name id' hid
    have here : name = file.className.text ∧ id' = id := by
      rw [Table.insertAll, List.foldl_cons, List.foldl_nil, Table.get?_insert] at hid
      split at hid
      next same =>
        cases hid
        exact ⟨same.symm, rfl⟩
      next => cases hid
    obtain ⟨rfl, rfl⟩ := here
    refine ⟨_, stored, rfl, ?_⟩
    rw [htree, ParseTree.shown?, if_pos rfl]

/-! ### Publishing a unit -/

section

variable (b : Basis config)

/-- Publishing the unit leads to these facts, with its classes added. -/
def Announces (part : Part config) (u : BuildUnit) (cx : Context) (facts : Facts) : Prop :=
  ∃ u' cx' classes s, part.tree.frontend.step .analyze4 u cx = (u', cx') ∧
    cx.Becomes { facts with classes := classes } cx' ∧ cx.registry.classes.Adopts u'.classTable classes ∧
    part.Published s cx'.store u'.classTable ∧ b.admits part s ∧ part.After b cx'.store .analyze4 u'

end

/-- The facts once the styles of a unit are merged. -/
def styled (facts : Facts) (styles : StyleTable) : Facts :=
  { facts with
    styles := (StyleTable.addAll facts.styles styles).1
    failed := facts.failed ||
      ((StyleTable.addAll facts.styles styles).2.isSome && decide (facts.config.styleSeverity = .error)) }

theorem styles_becomes (u : BuildUnit) {cx cx' : Context} (coherent : cx.registry.Coherent)
    (after : (publishStyles u cx).Remarks cx') : cx.Becomes (styled cx.facts u.styles) cx' :=
  (publishStyles_becomes u coherent).keep (after.becomes (publishStyles_becomes u coherent).coherent)

theorem step_abc (htree : part.tree = .abc p) (ok : cx.hasErrors = false) :
    part.tree.frontend.step .analyze4 u cx = AbcFrontend.publish [] u cx := by
  rw [htree]
  exact Frontend.step_publishes _ u ok

theorem step_properties (htree : part.tree = .properties file) (ok : cx.hasErrors = false) :
    part.tree.frontend.step .analyze4 u cx = BundleFrontend.publish [] u cx := by
  rw [htree]
  exact Frontend.step_publishes _ u ok

/-- A block that is taken over. -/
theorem announces_kept_abc (htree : part.tree = .abc p) (kept : part.Kept b cx.store u)
    (ok : cx.hasErrors = false) (coherent : cx.registry.Coherent) :
    part.Announces b u cx (styled cx.facts part.tree.styles) := by
  obtain ⟨s, admitted, classes⟩ := kept.classes
  have typed := cx.remarks_typeTable.becomes coherent
  have distinct := classes.distinct
  obtain ⟨cx₁, published, publishes⟩ :=
    publishTable_publishes cx.typeTable.1 distinct (classes.names.mono typed.store)
  obtain ⟨loader, store, heq, searched⟩ := AbcFrontend.publish_kept kept.kept published
  have entered := publishes.becomes typed.coherent
  have becomes := styles_becomes u entered.coherent searched
  rw [entered.facts, typed.facts, kept.fits.styles] at becomes
  have listed := classes.mono ((typed.store.trans entered.store).trans becomes.store)
  exact ⟨{ u with loaderBase := loader }, _, _, s, (step_abc htree ok).trans heq,
    (typed.trans entered).trans becomes, cx.registry.classes.adopts_entries distinct, listed, admitted,
    Or.inl { kept with fits := { kept.fits with }, classes := ⟨s, admitted, listed⟩ }⟩

/-- Whatever the settings and the log are, the unit describes the classes of the block so. -/
def Described (u : BuildUnit) (p : Program) (defined : Option (QName → Bool))
    (P : List ClassDescriptor → Prop) : Prop :=
  ∀ strict log, Publication.Gives defined (Publication.descriptors p (u.typeInfo.getD {})
    (p.constants (u.scratch.constants.getD .empty) strict u.source.name log).1 u.source.name) P

/-- The classes of a new block are published as they are described, with its styles. -/
theorem publish_gives {defined : Option (QName → Bool)} {P : List ClassDescriptor → Prop}
    (new : u.hasTypeInfo = false) (program : u.program? = some p) (described : Described u p defined P)
    (hdefined : ∀ known ∈ defined, cx.registry.definitions.contains = known) (ok : cx.hasErrors = false)
    (coherent : cx.registry.Coherent) :
    ∃ cx' descriptors entries loader,
      AbcFrontend.publish [] u cx =
        ({ u with
            classTable := u.classTable.insertAll entries
            scratch := { u.scratch with constants := none, unresolved := [] }
            loaderBase := loader }, cx') ∧
      cx.Becomes (styled (cx.facts.enter entries) u.styles) cx' ∧ P descriptors ∧
      List.Forall₂ (fun d entry => entry.1 = d.name ∧ cx'.store.Publishes entry.2 d) descriptors
        entries := by
  have table := cx.remarks_typeTable
  obtain ⟨entries, cx₁, loader, store, publishes, searched, heq⟩ :=
    @AbcFrontend.publishProgram_eq cx.typeTable.1 u cx.typeTable.2 p (table.log.hasErrors_eq.trans ok)
  -- the values only warn, and the descriptors only resolve names
  have resolved := (table.trans (AbcFrontend.describing_remarks u _ p)).becomes coherent
  have given :=
    described cx.typeTable.2.config.strict cx.typeTable.2.log cx.typeTable.2.registry fun known here =>
    ⟨table.coherent coherent, by rw [table.definitions, hdefined known here]⟩
  have entered := publishes.becomes resolved.coherent
  have told := styles_becomes u entered.coherent
    (searched.trans (AbcFrontend.reports_remarks _ p u.source.name u.scratch.unresolved))
  rw [entered.facts, resolved.facts] at told
  exact ⟨_, _, entries, loader, (AbcFrontend.publish_new new program).trans heq,
    (resolved.trans entered).trans told, given.1, publishes.stores.imp fun d entry h =>
    ⟨h.1, h.2.mono told.store⟩⟩

/-- A block that was analyzed. -/
theorem announces_typed_abc (htree : part.tree = .abc p) (typed : part.Typed b s u)
    (ground : cx.Grounded b.parts) (ok : cx.hasErrors = false) :
    part.Announces b u cx (styled cx.facts part.tree.styles) := by
  obtain ⟨frame, hframe, -, hlate, mirrors⟩ := typed.framed.frame
  obtain ⟨types, htypes, typesOf⟩ := typed.types p htree
  have ownFrame : u.typeInfo.getD {} = frame := by rw [hframe, Option.getD_some]
  have ownTypes : u.scratch.constants.getD .empty = types := by rw [htypes, Option.getD_some]
  -- neither the values nor the descriptors depend on the state of the program
  have described : Described u { p with state := .framed } (some s.defined)
      (List.Forall₂ (fun placed => Publication.Presents p s u.source.name placed
        (Program.members placed.1 placed.2)) (Program.indexed p.classes)) := by
    intro strict log
    rw [ownFrame, ownTypes]
    exact Publication.gives_descriptors hlate (mirrors p htree) (typesOf.startsIn strict u.source.name log)
      u.source.name
  have defined : cx.registry.definitions.contains = s.defined := by rw [typed.sees.defined, ground.contains]
  obtain ⟨cx', descriptors, entries, loader, published, becomes, presents, stored⟩ :=
    publish_gives typed.framed.plain (typed.framed.program htree) described (fun known here =>
      Option.some.inj here ▸ defined) ok ground.coherent
  rw [typed.framed.fits.styles] at becomes
  rw [typed.framed.fits.source] at presents
  rw [typed.framed.classTable] at published
  have listed := published_of_presents htree presents stored
  exact ⟨_, cx', _, s, (step_abc htree ok).trans published, becomes,
    cx.registry.classes.adopts_insertAll entries, listed, typed.admitted,
    Or.inr ⟨{ typed.framed.fits with }, typed.framed.plain, typed.framed.bytes,
      ⟨s, typed.admitted, listed⟩, typed.framed.tree, typed.frame⟩⟩

/-- The facts once a bundle is registered. -/
def bundled (facts : Facts) (key source : String) : Facts :=
  { facts with bundles := facts.bundles.insert key source }

end Part

namespace BundleFrontend

variable {u : BuildUnit} {cx : Context}
variable (noted : ∀ name ∈ u.topLevel, cx.registry.definitions.get? name = some u.source.name)
variable (named : bundleKey u.source cx.config.locale = key)
include noted named

/-- What the unit defines is noted already, so its bundle is registered unless another source has one of its
    name. -/
theorem registered_noted :
    registered u cx =
      if (cx.registry.bundleSources.get? key).any (· ≠ u.source.name) then
        (cx.registry, (cx.registry.bundleSources.get? key).map (.duplicateBundle key ·))
      else
        ({ cx.registry with
            bundleSources := cx.registry.bundleSources.insert key u.source.name
            bundleNames := cx.registry.bundleNames.insert key u.topLevel }, none) := by
  have clear : u.topLevel.findSome? (cx.registry.refusal? u.source.name) = none :=
    List.findSome?_eq_none_iff.2 fun name top => Registry.refusal?_eq_none_iff.2 <| Registry.free_iff.2
      fun owner held => Option.some.inj (held.symm.trans (noted name top))
  have known : cx.registry.noting u.source.name (u.topLevel.takeWhile (cx.registry.free u.source.name))
      = cx.registry :=
    Registry.noting_eq_self_iff.2 fun name member => noted name (List.takeWhile_subset _ member)
  have defined : cx.registry.defineUntil u.source.name u.topLevel = (cx.registry, none) := by
    rw [Registry.defineUntil_eq, known, clear]
  rw [registered, named, Registry.registerBundle]
  simp only [defined]

/-- The bundle is refused if another source has one of its name. -/
theorem registered_taken (taken : (cx.registry.bundleSources.get? key).any (· ≠ u.source.name) = true) :
    ∃ e, registered u cx = (cx.registry, some e) := by
  obtain ⟨owner, held, -⟩ := (Option.any_eq_true _ _).1 taken
  have refused := registered_noted noted named
  rw [if_pos taken, held] at refused
  exact ⟨_, refused⟩

/-- The bundle is registered before the class of the unit is published. -/
theorem opened_becomes
    (free : (cx.registry.bundleSources.get? key).any (· ≠ u.source.name) = false)
    (coherent : cx.registry.Coherent) :
    (registered u cx).2 = none ∧ cx.Becomes (Part.bundled cx.facts key u.source.name) (opened u cx).2 := by
  have accepted := registered_noted noted named
  rw [if_neg (ne_true_of_eq_false free)] at accepted
  have registers : cx.Becomes (Part.bundled cx.facts key u.source.name)
      { cx with registry := (registered u cx).1 } := by
    rw [accepted]
    exact ⟨rfl, ClassStore.Extends.refl _, coherent⟩
  exact ⟨congrArg Prod.snd accepted,
    registers.keep ((Context.remarks_typeTable _).becomes registers.coherent)⟩

end BundleFrontend

namespace Part

variable {config : Config} {b : Basis config} {part : Part config} {p : Program} {u : BuildUnit}
  {cx : Context}
  {s : Scope}

/-- What the unit of a file registers is told by the file. -/
theorem Fits.noted (fits : part.Fits u) (htree : part.tree = .properties file) (hconfig : cx.config = config)
    (defined : ∀ name ∈ part.tree.topLevel, cx.registry.definitions.get? name = some part.source.name) :
    (∀ name ∈ u.topLevel, cx.registry.definitions.get? name = some u.source.name) ∧
      BundleFrontend.bundleKey u.source cx.config.locale = file.bundleKey := by
  rw [fits.source, fits.topLevel, hconfig, (of_properties htree).2.2]
  exact ⟨defined, rfl⟩

section

variable {file : PropertiesFile} (htree : part.tree = .properties file) (ok : cx.hasErrors = false)
  (coherent : cx.registry.Coherent) (hconfig : cx.config = config)
  (defined : ∀ name ∈ part.tree.topLevel, cx.registry.definitions.get? name = some part.source.name)
  (free : (cx.registry.bundleSources.get? file.bundleKey).any (· ≠ part.source.name) = false)

include htree ok coherent hconfig defined free

/-- A file that is taken over. -/
theorem announces_kept_properties (kept : part.Kept b cx.store u) :
    part.Announces b u cx (bundled cx.facts file.bundleKey part.source.name) := by
  obtain ⟨s, admitted, classes⟩ := kept.classes
  obtain ⟨noted, named⟩ := kept.fits.noted htree hconfig defined
  obtain ⟨accepted, table⟩ := BundleFrontend.opened_becomes noted named (kept.fits.source ▸ free) coherent
  have distinct := classes.distinct
  obtain ⟨cx₂, published, publishes⟩ := publishTable_publishes (BundleFrontend.opened u cx).1 distinct
    (classes.names.mono table.store)
  have entered := publishes.becomes table.coherent
  rw [table.facts, kept.fits.source] at entered
  have listed := classes.mono (table.store.trans entered.store)
  refine ⟨u, cx₂, _, s, ?_, table.trans entered, cx.registry.classes.adopts_entries distinct,
    listed, admitted, Or.inl { kept with classes := ⟨s, admitted, listed⟩ }⟩
  rw [step_properties htree ok, BundleFrontend.publish_kept accepted kept.kept, published]

/-- A file that was analyzed. -/
theorem announces_typed_properties (typed : part.Typed b s u) :
    part.Announces b u cx (bundled cx.facts file.bundleKey part.source.name) := by
  obtain ⟨noted, named⟩ := typed.framed.fits.noted htree hconfig defined
  obtain ⟨accepted, table⟩ :=
    BundleFrontend.opened_becomes noted named (typed.framed.fits.source ▸ free) coherent
  have properties : u.properties? = some file := by
    rw [BuildUnit.properties?, typed.framed.tree, htree]
    rfl
  obtain ⟨entries, cx₂, publishes, published⟩ :=
    BundleFrontend.publish_new accepted typed.framed.plain properties
  have stored := publishes.stores
  have entered := publishes.becomes table.coherent
  obtain ⟨id, rfl, hid⟩ : ∃ id, entries = [(file.className.text, id)] ∧
      cx₂.store.Publishes id (BundleFrontend.descriptorOf file u.source.name) := by
    cases stored with
    | @cons _ entry _ _ first rest =>
      cases rest
      exact ⟨entry.2, by rw [← show entry.1 = file.className.text from first.1], first.2⟩
  rw [table.facts, typed.framed.fits.source] at entered
  rw [typed.framed.fits.source] at hid
  rw [typed.framed.classTable] at published
  have listed := published_of_file htree s hid
  refine ⟨{ u with classTable := Table.empty.insertAll [(file.className.text, id)] }, cx₂, _, s, ?_,
    table.trans entered, cx.registry.classes.adopts_insertAll [(file.className.text, id)], listed,
    typed.admitted, Or.inr ⟨{ typed.framed.fits with }, typed.framed.plain, typed.framed.bytes,
    ⟨s, typed.admitted, listed⟩,
      typed.framed.tree, typed.frame⟩⟩
  exact (step_properties htree ok).trans published

end

end Part

/-! ### Following the ledger -/

/-- What publishing leaves alone. -/
structure Context.Keeps (cx cx' : Context) : Prop where
  config : cx'.config = cx.config
  sources : cx'.sources = cx.sources
  definitions : cx'.registry.definitions = cx.registry.definitions
  store : cx.store.Extends cx'.store
  coherent : cx'.registry.Coherent

theorem Context.Becomes.keeps {cx cx' : Context} {facts : Facts} (h : cx.Becomes facts cx')
    (config : facts.config = cx.config) (sources : facts.sources = cx.sources)
    (definitions : facts.definitions = cx.registry.definitions) : cx.Keeps cx' where
  config := (congrArg Facts.config h.facts).trans config
  sources := (congrArg Facts.sources h.facts).trans sources
  definitions := (congrArg Facts.definitions h.facts).trans definitions
  store := h.store
  coherent := h.coherent

namespace Ledger

variable {config : Config} {b : Basis config} {part : Part config} {u : BuildUnit} {cx : Context}
  {l : Ledger config}

/-- The classes known once a part is published. -/
def known (l : Ledger config) (part : Part config) : Table String (Part config) :=
  l.classes.insertAll (part.tree.classNames.map fun name => (name, part))

/-- A program is refused just if its styles conflict and the settings call that an error. -/
theorem publish_abc {p : Program} (htree : part.tree = .abc p) (l : Ledger config) : l.publish part =
    if (StyleTable.addAll l.styles part.tree.styles).2.isSome && decide
      (config.styleSeverity = .error) then none
    else some { l with
      classes := l.known part
      styles := (StyleTable.addAll l.styles part.tree.styles).1 } := by
  unfold publish known
  rw [htree]

/-- A bundle is refused just if another source has its key. -/
theorem publish_properties (htree : part.tree = .properties file) (l : Ledger config) :
    l.publish part =
      if (l.bundles.get? file.bundleKey).any (· ≠ part.source.name) then none
      else some { l with
        classes := l.known part, bundles := l.bundles.insert file.bundleKey part.source.name } := by
  unfold publish known
  rw [htree]

/-- A build that enters the classes of a part follows the ledger that knows them. -/
theorem Follows.adopt (h : l.Follows b cx) {cx' : Context} {facts : Facts}
    {s : Scope} (becomes : cx.Becomes { facts with classes := classes } cx') (fine : facts.failed = false)
    (adopts : cx.registry.classes.Adopts u.classTable classes)
    (published : part.Published s cx'.store u.classTable)
    (admitted : b.admits part s) :
    Follows b { bundles := facts.bundles, styles := facts.styles, classes := l.known part } cx' where
  ok := (congrArg Facts.failed becomes.facts).trans fine
  bundles := congrArg Facts.bundles becomes.facts
  styles := congrArg Facts.styles becomes.facts
  classes := by
    have adopted : cx'.registry.classes = classes := congrArg Facts.classes becomes.facts
    exact h.classes.adopt becomes.store published admitted (adopted ▸ adopts)

section

variable (b : Basis config)

/-- Publishing the unit of a part goes as the ledger tells. -/
def Publishes (l : Ledger config) (part : Part config) (u : BuildUnit) (cx : Context) : Prop :=
  ∃ u' cx', part.tree.frontend.step .analyze4 u cx = (u', cx') ∧ cx.Keeps cx' ∧
    match l.publish part with
    | none => cx'.hasErrors = true
    | some l' => l'.Follows b cx' ∧
        part.After b cx'.store .analyze4 { u' with lastPhase := some .analyze4 }

end

/-- A build that follows the ledger still does so after a program has published. -/
theorem publishes_abc {p : Program} (htree : part.tree = .abc p) (h : l.Follows b cx)
    (hconfig : cx.config = config)
    (announces : part.Announces b u cx (Part.styled cx.facts part.tree.styles)) :
    l.Publishes b part u cx := by
  obtain ⟨u', cx', classes, s, step, becomes, adopts, published, admitted, after⟩ := announces
  have failed : (Part.styled cx.facts part.tree.styles).failed
      = ((StyleTable.addAll l.styles part.tree.styles).2.isSome && decide
        (config.styleSeverity = .error)) := by
    change (cx.hasErrors || ((StyleTable.addAll cx.registry.styles part.tree.styles).2.isSome &&
      decide (cx.config.styleSeverity = .error))) = _
    rw [h.ok, Bool.false_or, h.styles, hconfig]
  refine ⟨u', cx', step, becomes.keeps rfl rfl rfl, ?_⟩
  rw [publish_abc htree, ← failed]
  split
  next stopped =>
    split at stopped
    next refused => exact (congrArg Facts.failed becomes.facts).trans refused
    next => cases stopped
  next l' went =>
    split at went
    next => cases went
    next fine =>
      cases went
      have follows := h.adopt becomes (Bool.eq_false_iff.2 fine) adopts published admitted
      change Follows b
        ⟨cx.registry.bundleSources, (StyleTable.addAll cx.registry.styles part.tree.styles).1, _⟩ cx'
        at follows
      rw [h.bundles, h.styles] at follows
      exact ⟨follows, after.noted _⟩

/-- It still does so after a bundle has published. -/
theorem publishes_properties (htree : part.tree = .properties file) (h : l.Follows b cx)
    (free : (cx.registry.bundleSources.get? file.bundleKey).any (· ≠ part.source.name) = false)
    (announces : part.Announces b u cx (Part.bundled cx.facts file.bundleKey part.source.name)) :
    l.Publishes b part u cx := by
  obtain ⟨u', cx', classes, s, step, becomes, adopts, published, admitted, after⟩ := announces
  refine ⟨u', cx', step, becomes.keeps rfl rfl rfl, ?_⟩
  rw [h.bundles] at free
  rw [publish_properties htree, if_neg (by rw [free]; exact Bool.false_ne_true)]
  have follows := h.adopt becomes h.ok adopts published admitted
  change Follows b
    ⟨cx.registry.bundleSources.insert file.bundleKey part.source.name, cx.registry.styles, _⟩ cx'
    at follows
  rw [h.bundles, h.styles] at follows
  exact ⟨follows, after.noted _⟩

/-- The bundle of another source is in the way. -/
theorem publishes_refused (htree : part.tree = .properties file) (h : l.Follows b cx)
    (fits : part.Fits u) (coherent : cx.registry.Coherent) (hconfig : cx.config = config)
    (defined : ∀ name ∈ part.tree.topLevel, cx.registry.definitions.get? name = some part.source.name)
    (taken : (cx.registry.bundleSources.get? file.bundleKey).any (· ≠ part.source.name) = true) :
    l.Publishes b part u cx := by
  obtain ⟨noted, named⟩ := fits.noted htree hconfig defined
  obtain ⟨e, refused⟩ := BundleFrontend.registered_taken noted named (fits.source ▸ taken)
  have reported := Context.becomes_error coherent (some u.source.name) e.message
  refine ⟨u, _, ?_, reported.keeps rfl rfl rfl, ?_⟩
  · rw [Part.step_properties htree h.ok, BundleFrontend.publish_refused (congrArg Prod.snd refused), refused]
  · rw [h.bundles] at taken
    rw [publish_properties htree, if_pos taken]
    exact congrArg Facts.failed reported.facts

/-- Publishing the unit of a part follows publishing the part. -/
theorem Follows.publish (h : l.Follows b cx) (hu : part.After b cx.store .analyze3 u)
    (ground : cx.Grounded b.parts) (member : part ∈ b.parts) : l.Publishes b part u cx := by
  have defined (name : QName) (own : name ∈ part.tree.topLevel) :
      cx.registry.definitions.get? name = some part.source.name :=
    (ground.definitions name).trans (ground.clear.definer member own)
  cases htree : part.tree with
  | abc p =>
    refine publishes_abc htree h ground.settings ?_
    rcases hu with kept | ⟨s, typed⟩
    · exact Part.announces_kept_abc htree kept h.ok ground.coherent
    · exact Part.announces_typed_abc htree typed ground h.ok
  | properties file =>
    cases free : (cx.registry.bundleSources.get? file.bundleKey).any (· ≠ part.source.name) with
    | true => exact publishes_refused htree h hu.fits ground.coherent ground.settings defined free
    | false =>
      refine publishes_properties htree h free ?_
      rcases hu with kept | ⟨s, typed⟩
      · exact Part.announces_kept_properties htree h.ok ground.coherent ground.settings defined free kept
      · exact Part.announces_typed_properties htree h.ok ground.coherent ground.settings defined free typed

end Ledger

end AbcBuild
