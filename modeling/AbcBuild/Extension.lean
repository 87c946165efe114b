/-
Module: AbcBuild.Extension
Purpose: Hooks that run at the end of a phase of a unit, and hooks that run over the finished units.  An
  error that a hook reports stops the build like any other.
Main exports: Extension, Extension.ofRules, Extension.runAll, LinkHook, LinkHook.reporting
-/
import AbcBuild.Context

namespace AbcBuild

/-- A hook that runs at the end of a phase.  In the phases that have one, it is given the type table. -/
structure Extension where
  name : String
  visit : Phase → Option TypeTable → BuildUnit → Context → BuildUnit × Context

namespace Extension

/-- What an extension reports in a phase, for all sources or for one. -/
structure Rule where
  phase : Phase
  source : Option String
  severity : Severity
  message : String
deriving Repr, DecidableEq, Inhabited

/-- The rule speaks of this phase of this source. -/
def Rule.applies (rule : Rule) (phase : Phase) (source : String) : Bool :=
  rule.phase = phase && rule.source.all (· = source)

/-- An extension that leaves each visit on record and then reports what its rules tell. -/
def ofRules (name : String) (rules : List Rule) : Extension where
  name := name
  visit phase table u cx :=
    let typed := table.any fun t => u.classTable.values.all fun id => cx.store.isBoundTo id t
    let cx := { cx with events := cx.events ++ [.visit name phase u.source.name typed] }
    let said := rules.filter fun rule => rule.applies phase u.source.name
    (u, said.foldl
      (fun cx rule => cx.report rule.severity (some u.source.name) (.extension name rule.message)) cx)

/-- The phases whose hooks are given the type table. -/
def isTyped : Phase → Bool
  | .analyze4 => true
  | .generate => true
  | _ => false

/-- The type table for a hook of the phase. -/
def tableFor (phase : Phase) (cx : Context) : Option TypeTable × Context :=
  if isTyped phase then
    let (table, cx) := cx.typeTable
    (some table, cx)
  else (none, cx)

/-- Run hooks one after the other until one reports an error. -/
def runEach (phase : Phase) : List Extension → BuildUnit → Context → Bool × BuildUnit × Context
  | [], u, cx => (true, u, cx)
  | extension :: rest, u, cx =>
    let (table, cx) := tableFor phase cx
    let (u, cx) := extension.visit phase table u cx
    if cx.hasErrors then (false, u, cx) else runEach phase rest u cx

/-- Run the hooks of a phase; `false` tells that the build has errors. -/
def runAll (extensions : List Extension) (phase : Phase) (u : BuildUnit) (cx : Context) :
    Bool × BuildUnit × Context :=
  if cx.hasErrors then (false, u, cx) else runEach phase extensions u cx

/-- Run the hooks at the end of a phase. -/
def finish (extensions : List Extension) (phase : Phase) (u : BuildUnit) (cx : Context) :
    BuildUnit × Context :=
  (runAll extensions phase u cx).2

end Extension

/-- A hook that runs over the finished units. -/
structure LinkHook where
  run : Context → Context

/-- A hook that leaves its run on record and then may report a message. -/
def LinkHook.reporting (severity : Option Severity) (message : String) : LinkHook where
  run cx :=
    let cx := { cx with events := cx.events ++
      [.link (cx.units.map fun u => u.source.name) (cx.sources.map fun slot => slot.source.name)
        cx.config.strict cx.log.entries.length] }
    match severity with
    | none => cx
    | some severity => cx.report severity none (.extension "prelink" message)

end AbcBuild
