/-
Module: AbcBuild.Proofs.Account
Purpose: A build that succeeds accounts for its sources.  Its classes and its bytecode are theirs, all of
  them and no others, and the unit of each source has gone through all phases.
Main exports: Abc.File.encode_ne_nil, Part.content_eq, Compilation.build_accounts_for_sources
-/
import AbcBuild.Proofs.OneType

namespace AbcBuild

variable {config : Config}

/-- A block starts with its version. -/
theorem Abc.File.encode_ne_nil (file : Abc.File) : file.encode ≠ [] := by
  simp [File.encode, Writer.u16, Writer.littleEndian]

namespace Part

variable {part : Part config}

theorem content_eq (h : part.source.mime = Mime.abc) : part.source.content = .ok part.bytecode := by
  cases htree : part.tree with
  | abc p => exact (AbcFrontend.bytecode_eq_ok (of_abc htree).2.1).1
  | properties file =>
    have other : Mime.abc = Mime.properties := h.symm.trans (of_properties htree).1
    exact absurd other (by decide)

theorem bytecode_ne_empty (part : Part config) : part.bytecode ≠ [] := by
  cases htree : part.tree with
  | abc p => exact (AbcFrontend.bytecode_eq_ok (of_abc htree).2.1).2
  | properties file =>
    rw [bytecode, htree]
    exact Abc.File.encode_ne_nil _

/-- The classes of the parts are those of their sources. -/
theorem exists_class_iff (parts : List (Part config)) (name : String) :
    (∃ part ∈ parts, name ∈ part.tree.classNames) ↔
      ∃ s ∈ parts.map Part.source, ∃ tree, s.tree? config = some tree ∧ name ∈ tree.classNames := by
  constructor
  · rintro ⟨part, listed, has⟩
    exact ⟨part.source, List.mem_map_of_mem listed, part.tree, part.parsed, has⟩
  · rintro ⟨s, hs, tree, parsed, has⟩
    obtain ⟨part, listed, rfl⟩ := List.mem_map.1 hs
    cases part.parsed.symm.trans parsed
    exact ⟨part, listed, has⟩

end Part

theorem Table.entries_ofList {κ ν : Type} [DecidableEq κ] {entries : List (κ × ν)}
    (distinct : (entries.map Prod.fst).Nodup) : (Table.ofList entries).entries = entries :=
  congrArg Table.entries (Table.insertAll_entries (t := ⟨entries⟩) distinct)

namespace Compilation

theorem entries_bytecodeOf {b : Basis config} {l : Ledger config} {cx : Context}
    (finished : cx.Completed b l) (distinct : (b.parts.map fun part => part.source.name).Nodup) :
    (bytecodeOf cx.sources).entries = b.parts.map fun part => (part.source.name, part.bytecode) := by
  rw [bytecodeOf_eq finished]
  apply Table.entries_ofList
  rw [List.map_map]
  exact distinct

/-- A build without a cache that succeeds.  All of its sources are parsed.  Its classes are those of its
    sources; each is published for good, with a descriptor that names a source that has the class.  There is
    some bytecode for each source, in their order, which for a block is its content.  The unit of each source
    is done. -/
theorem build_accounts_for_sources (config : Config) (edits : List Edit)
    (fresh : (after config edits).cache.isEmpty = true) (r : BuildReport)
    (ok : (after config edits).build.1 = .ok r) :
    let c := after config edits
    (∀ s ∈ c.sources.values, (s.tree? config).isSome = true) ∧
    (∀ name, name ∈ r.classes.keys ↔
      ∃ s ∈ c.sources.values, ∃ tree, s.tree? config = some tree ∧ name ∈ tree.classNames) ∧
    (∀ name id, r.classes.get? name = some id → c.build.2.store.isFrozen id = true ∧
      ∃ d, c.build.2.store.descriptor? id = some d ∧
        ∃ s ∈ c.sources.values, d.source = some s.name ∧
          ∃ tree, s.tree? config = some tree ∧ name ∈ tree.classNames) ∧
    List.Forall₂ (fun s entry => entry.1 = s.name ∧ entry.2 ≠ [] ∧
      (s.mime = Mime.abc → s.content = .ok entry.2)) c.sources.values r.bytecode.entries ∧
    List.Forall₂ (fun s slot => slot.source = s ∧ ∃ u, slot.unit = some u ∧ u.source = s ∧ u.Ended)
      c.sources.values (c.scheduler.run c.context).2.sources := by
  have sound := (keyed_after config edits).sound fresh
  obtain ⟨l, cx, sources, builds, run, finished, rfl, store⟩ := sound.build_completed ok
  have lists := finished.follows.classes.mono (extends_startGeneration cx)
  rw [← store] at lists
  refine ⟨?_, ?_, ?_, ?_, ?_⟩
  · intro s hs
    rw [← sources] at hs
    obtain ⟨part, -, rfl⟩ := List.mem_map.1 hs
    rw [part.parsed]
    rfl
  · intro name
    have keys : (reportOf (after config edits) cx).classes.keys = l.classes.keys := lists.keys
    rw [keys, builds.mem_keys, Part.exists_class_iff, sources]
  · intro name id found
    obtain ⟨scope, shown⟩ := lists.shown
    obtain ⟨part, d, known, published, shows, -⟩ := shown name id found
    refine ⟨published.frozen, d, published.descriptor, part.source,
      sources ▸ List.mem_map_of_mem (builds.mem_of_get? known), ?_⟩
    exact ⟨ParseTree.source_of_shown? shows, part.tree, part.parsed,
      ParseTree.mem_classNames_of_shown? shows⟩
  · have entries : (reportOf (after config edits) cx).bytecode.entries
        = ((after config edits).basis config []).parts.map fun part => (part.source.name, part.bytecode) :=
      entries_bytecodeOf finished (sound.parts_distinct sources)
    rw [entries, ← sources, List.forall₂_map_left_iff, List.forall₂_map_right_iff, List.forall₂_same]
    intro part _
    exact ⟨rfl, part.bytecode_ne_empty, Part.content_eq⟩
  · rw [run, ← sources, List.forall₂_map_left_iff]
    refine finished.units.forall₂.imp ?_
    rintro part slot ⟨-, unit, rfl, u, rfl, ended⟩
    exact ⟨rfl, u, rfl, ended.fits.source, ended.ended fun reuses => reuses (reusable_eq_zero fresh)⟩

theorem build_accounts_for_sources_meadow :
    ∃ r, (after {} meadow).build.1 = .ok r ∧ "View" ∈ r.classes.keys ∧
    List.Forall₂ (fun s entry => entry.1 = s.name ∧ entry.2 ≠ []) [view, base "x", base "y", bundle]
      r.bytecode.entries ∧
    List.Forall₂ (fun s slot => slot.source = s ∧ ∃ u, slot.unit = some u ∧ u.Ended)
      [view, base "x", base "y", bundle]
        ((after {} meadow).scheduler.run (after {} meadow).context).2.sources := by
  have sources : (after {} meadow).sources.values = [view, base "x", base "y", bundle] := rfl
  have built : (after {} meadow).build.1.isOk = true := by decide +kernel
  obtain ⟨r, ok⟩ := Part.exists_ok built
  obtain ⟨-, keys, -, bytecode, units⟩ := build_accounts_for_sources {} meadow rfl r ok
  rw [sources] at bytecode units
  have parsed : ((view.tree? {}).any fun tree => tree.classNames.contains "View") = true := by decide +kernel
  obtain ⟨tree, htree, has⟩ := (Option.any_eq_true _ _).1 parsed
  have member : view ∈ (after {} meadow).sources.values := by
    rw [sources]
    exact List.mem_cons_self ..
  refine ⟨r, ok, (keys "View").2 ⟨view, member, tree, htree, List.contains_iff_mem.1 has⟩, ?_, ?_⟩
  · exact bytecode.imp fun _ _ entry => ⟨entry.1, entry.2.1⟩
  · apply units.imp
    rintro s slot ⟨source, u, unit, -, ended⟩
    exact ⟨source, u, unit, ended⟩

end Compilation

end AbcBuild
