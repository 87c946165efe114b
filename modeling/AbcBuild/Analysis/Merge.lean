/-
Module: AbcBuild.Analysis.Merge
Purpose: Taking over the frames of the sources that a unit depends on.
Main exports: mergeNamesBy, mergeBy, takeOver, mergeDependencies
-/
import AbcBuild.Context

namespace AbcBuild

/-- The source whose frame a name asks for: another source defines the name. -/
def dependency? (cx : Context) (u : BuildUnit) (name : QName) : Option String :=
  if u.topLevel.contains name then none
  else (cx.registry.definedIn? name).filter fun source => source ≠ u.source.name

/-- The sources on record. -/
def BuildUnit.mergedSources (u : BuildUnit) : List String := u.scratch.processed.getD []

/-- The unit with another frame and another record of merged sources. -/
def BuildUnit.withFrame (u : BuildUnit) (typeInfo : Option Frame) (processed : Option (List String)) :
    BuildUnit :=
  { u with typeInfo := typeInfo, scratch := { u.scratch with processed := processed } }

/-- A frame that is handed over to be merged, and the source that it belongs to. -/
structure MergeCall where
  source : String
  frame : Frame

/-- What merging leaves behind, with the frames that were handed over. -/
structure Merged where
  unit : BuildUnit
  context : Context
  count : Nat
  calls : List MergeCall

/-- Merge the frames that names ask for, each source once, by a procedure that is given the frame of the
    source and the unit's own; its calls are counted and recorded.  A source without a frame is left for a
    later phase; a unit without a frame merges nothing. -/
def mergeNamesBy (merge : Frame → Frame → Frame) : List Name → BuildUnit → Context → Merged
  | [], u, cx => ⟨u, cx, 0, []⟩
  | name :: rest, u, cx =>
    let (found, cx) := cx.resolveName name
    match found.bind (dependency? cx u) with
    | none => mergeNamesBy merge rest u cx
    | some source =>
      let known := u.withFrame u.typeInfo (some u.mergedSources)
      if u.mergedSources.contains source then mergeNamesBy merge rest known cx
      else
        match cx.frameOf? source with
        | none => mergeNamesBy merge rest known cx
        | some frame =>
          match u.typeInfo with
          | none => ⟨known, cx, 0, []⟩
          | some own =>
            let next := u.withFrame (some (merge frame own)) (some (u.mergedSources ++ [source]))
            let later := mergeNamesBy merge rest next cx
            { later with count := later.count + 1, calls := ⟨source, frame⟩ :: later.calls }

/-- The same for one set of dependencies. -/
def mergeBy (merge : Frame → Frame → Frame) (set : DependencySet) (u : BuildUnit) (cx : Context) : Merged :=
  mergeNamesBy merge (u.dependencies.ofSet set) u cx

/-- The procedure of a build: the unit's frame takes over the other. -/
def takeOver (frame own : Frame) : Frame := (own.inheritFrom frame).1

/-- Take over the frames that one set of dependencies asks for, and count them. -/
def mergeDependencies (set : DependencySet) (u : BuildUnit) (cx : Context) : BuildUnit × Context × Nat :=
  let merged := mergeBy takeOver set u cx
  (merged.unit, merged.context, merged.count)

end AbcBuild
