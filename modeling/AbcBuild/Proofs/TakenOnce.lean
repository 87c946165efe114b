/-
Module: AbcBuild.Proofs.TakenOnce
Purpose: Which frames are merged into the frame of a unit, call by call, over any number of visits of its
  sets of dependencies.  No source is merged twice, the unit's own never, and none that a set asks for is
  left out.
Main exports: BuildUnit.Settled, MergeRun.accounts, sources_merged_once
-/
import AbcBuild.Proofs.Taking

namespace AbcBuild

/-- No source that a set asks for is left: whatever the registry takes a name of the set for, if the unit
    does not define it itself and another source does whose unit has a frame, that source is on record. -/
def BuildUnit.Settled (u : BuildUnit) (cx : Context) (set : DependencySet) : Prop :=
  ∀ n ∈ u.dependencies.ofSet set, ∀ q source, (cx.resolveName n).1 = some q → q ∉ u.topLevel →
    cx.registry.definedIn? q = some source → source ≠ u.source.name → (cx.frameOf? source).isSome = true →
      source ∈ u.mergedSources

theorem settled_mergeBy (merge : Frame → Frame → Frame) (set : DependencySet) {u : BuildUnit} (cx : Context)
    (framed : u.typeInfo.isSome = true) :
    (mergeBy merge set u cx).unit.Settled (mergeBy merge set u cx).context set := by
  have accounts : (mergeBy merge set u cx).Accounts merge (u.dependencies.ofSet set) u cx :=
    accounts_mergeNamesBy merge (u.dependencies.ofSet set) u cx
  generalize mergeBy merge set u cx = r at accounts ⊢
  obtain ⟨typeInfo, processed, same⟩ := accounts.unit
  intro n listed q source answered outside defined foreign hasFrame
  rw [same] at listed outside foreign
  have outside : q ∉ u.topLevel := outside
  -- the registry after the visit takes the name for the same as before
  have wanted : cx.asks u n = some source := by
    rw [← accounts.asks.asks u, Context.asks, ← (r.context.asks_resolveName n).1, answered, Option.bind_some,
      dependency?, if_neg fun own => outside (List.contains_iff_mem.1 own), defined]
    exact Option.filter_eq_some_iff.2 ⟨rfl, decide_eq_true foreign⟩
  rw [accounts.asks.frameOf?] at hasFrame
  refine (accounts.complete framed n listed source wanted).resolve_right fun unframed => ?_
  rw [unframed] at hasFrame
  cases hasFrame

/-! ### Any number of visits -/

/-- Visits of a unit's sets, one after the other, with all their calls and the numbers they return.  Each
    visit finds the context as it is then; in between the unit may change too, as long as the record of
    sources is kept. -/
inductive MergeRun (start : BuildUnit) : BuildUnit → List MergeCall → List Nat → Prop where
  | start : MergeRun start start [] []
  | visit {u : BuildUnit} {calls : List MergeCall} {counts : List Nat}
      (before : MergeRun start u calls counts) (merge : Frame → Frame → Frame) (set : DependencySet)
        (cx : Context) :
      MergeRun start (mergeBy merge set u cx).unit (calls ++ (mergeBy merge set u cx).calls)
        (counts ++ [(mergeBy merge set u cx).count])
  | change {u u' : BuildUnit} {calls : List MergeCall} {counts : List Nat}
      (before : MergeRun start u calls counts) (framed : u'.typeInfo.isSome = true)
        (source : u'.source.name = u.source.name)
      (record : u'.scratch.processed = u.scratch.processed) : MergeRun start u' calls counts

/-- What the calls so far account for. -/
structure MergeRun.Accounts (start u : BuildUnit) (calls : List MergeCall) (counts : List Nat) : Prop where
  framed : u.typeInfo.isSome = true
  source : u.source.name = start.source.name
  record : u.mergedSources = start.mergedSources ++ calls.map MergeCall.source
  distinct : (calls.map MergeCall.source).Nodup
  fresh : ∀ call ∈ calls, call.source ∉ start.mergedSources
  foreign : ∀ call ∈ calls, call.source ≠ start.source.name
  counted : counts.sum = calls.length

namespace MergeRun

variable {start u : BuildUnit} {calls : List MergeCall} {counts : List Nat}

/-- One visit more. -/
theorem Accounts.visit (h : Accounts start u calls counts) {merge : Frame → Frame → Frame}
    {names : List Name} {cx : Context} {r : Merged} (visit : r.Accounts merge names u cx) :
    Accounts start r.unit (calls ++ r.calls) (counts ++ [r.count]) where
  framed := by
    rw [visit.frame, Option.isSome_map]
    exact h.framed
  source := by
    obtain ⟨typeInfo, processed, same⟩ := visit.unit
    rw [same]
    exact h.source
  record := by rw [visit.record, h.record, List.map_append, List.append_assoc]
  distinct := by
    rw [List.map_append]
    refine List.nodup_append'.2 ⟨h.distinct, visit.distinct, ?_⟩
    intro source early late
    obtain ⟨call, listed, rfl⟩ := List.mem_map.1 late
    exact visit.fresh call listed (h.record ▸ List.mem_append_right _ early)
  fresh := by
    intro call listed old
    rcases List.mem_append.1 listed with early | late
    · exact h.fresh call early old
    · exact visit.fresh call late (h.record ▸ List.mem_append_left _ old)
  foreign := by
    intro call listed
    rcases List.mem_append.1 listed with early | late
    · exact h.foreign call early
    · exact h.source ▸ visit.foreign call late
  counted := by
    rw [List.sum_append, List.sum_singleton, h.counted, visit.count, List.length_append]

theorem accounts (framed : start.typeInfo.isSome = true) (run : MergeRun start u calls counts) :
    Accounts start u calls counts := by
  induction run with
  | start =>
    exact ⟨framed, rfl, (List.append_nil _).symm, List.nodup_nil, fun _ none => (List.not_mem_nil none).elim,
      fun _ none => (List.not_mem_nil none).elim, rfl⟩
  | visit before merge set cx ih => exact ih.visit (accounts_mergeNamesBy merge _ _ cx)
  | change before framed source record ih =>
    refine { ih with framed, source := source.trans ih.source, record := ?_ }
    rw [BuildUnit.mergedSources, record]
    exact ih.record

end MergeRun

/-- Over any number of visits no source is merged twice, and the unit's own never is; the numbers that are
    returned add up to the calls; and the record of sources grows by just those that are merged.  One visit
    more is what a build does, each call hands over the frame of its source, and no source that the set asks
    for is left. -/
theorem sources_merged_once {start u : BuildUnit} {calls : List MergeCall} {counts : List Nat}
    (framed : start.typeInfo.isSome = true) (run : MergeRun start u calls counts) :
    (calls.map MergeCall.source).Nodup ∧
      start.source.name ∉ calls.map MergeCall.source ∧
      counts.sum = calls.length ∧
      u.mergedSources = start.mergedSources ++ calls.map MergeCall.source ∧
      (∀ call ∈ calls, call.source ∉ start.mergedSources) ∧
      ∀ set cx,
        mergeDependencies set u cx =
          ((mergeBy takeOver set u cx).unit, (mergeBy takeOver set u cx).context,
            (mergeBy takeOver set u cx).count) ∧
        ∀ merge, (mergeBy merge set u cx).unit.Settled (mergeBy merge set u cx).context set ∧
          (mergeBy merge set u cx).unit.typeInfo = u.typeInfo.map (fun own =>
            (mergeBy merge set u cx).calls.foldl (fun own call => merge call.frame own) own) ∧
          ∀ call ∈ (mergeBy merge set u cx).calls, cx.frameOf? call.source = some call.frame := by
  have h := run.accounts framed
  refine ⟨h.distinct, ?_, h.counted, h.record, h.fresh, ?_⟩
  · intro own
    obtain ⟨call, listed, same⟩ := List.mem_map.1 own
    exact h.foreign call listed same
  · intro set cx
    refine ⟨rfl, fun merge => ?_⟩
    refine ⟨settled_mergeBy merge set cx h.framed, ?_, ?_⟩
    · exact (accounts_mergeNamesBy merge (u.dependencies.ofSet set) u cx).frame
    · exact (accounts_mergeNamesBy merge (u.dependencies.ofSet set) u cx).frames

/-- A unit that inherits from a class of a library and has its namespace too. -/
def appUnit : BuildUnit where
  source := ⟨"a.abc", "", Mime.abc, .ok []⟩
  typeInfo := some {}
  dependencies :=
    { inheritance := [.qualified ⟨"lib", "B"⟩]
      spaces := [.multi ⟨["app", "lib"], "B"⟩, .qualified ⟨"lib", "C"⟩] }

/-- A library that defines two classes; its unit has a frame. -/
def libraryContext : Context where
  registry :=
    { untyped := 0, generation := 1, definitions := ⟨[(⟨"lib", "B"⟩, "b.abc"), (⟨"lib", "C"⟩, "b.abc")]⟩ }
  sources := [{ source := ⟨"b.abc", "", Mime.abc, .ok []⟩
                unit := some { source := ⟨"b.abc", "", Mime.abc, .ok []⟩, typeInfo := some {} } }]
  store := {}

/-- The library is merged for the inherited class, and not again for the namespaces. -/
theorem sources_merged_once_library :
    ∃ u calls counts, appUnit.typeInfo.isSome = true ∧ MergeRun appUnit u calls counts ∧
      calls.map MergeCall.source = ["b.abc"] ∧ counts = [1, 0] ∧ counts.sum = calls.length ∧
      u.mergedSources = ["b.abc"] := by
  have first : MergeRun appUnit _ _ _ := MergeRun.start.visit takeOver .inheritance libraryContext
  have run := first.visit takeOver .spaces libraryContext
  have framed : appUnit.typeInfo.isSome = true := rfl
  obtain ⟨-, -, counted, record, -⟩ := sources_merged_once framed run
  exact ⟨_, _, _, framed, run, by decide, by decide, counted, record.trans (by decide)⟩

end AbcBuild
