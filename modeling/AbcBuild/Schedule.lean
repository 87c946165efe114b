/-
Module: AbcBuild.Schedule
Purpose: Driving all sources of a build through the phases.  A phase is finished on every unit before the
  next one starts, and the first phase with errors is the last.
Main exports: Scheduler, Scheduler.standard, Scheduler.attach, Scheduler.run, Outcome
-/
import AbcBuild.DependencyOrder
import AbcBuild.Frontend

namespace AbcBuild

/-- How far a build got. -/
structure Outcome where
  /-- All phases ran, and nothing reported an error. -/
  completed : Bool
  /-- The last phase that ran. -/
  lastPhase : Option Phase
  /-- The places of the sources, in the order in which their units were worked on. -/
  order : List Nat
deriving Repr, DecidableEq, Inhabited

/-- The outcome of a build that has errors. -/
def Outcome.stopped (phase : Option Phase) (order : List Nat) : Outcome := ⟨false, phase, order⟩

/-- Front ends, the first of which that supports a MIME type gets its sources, and hooks over the finished
    units. -/
structure Scheduler where
  frontends : List Frontend := []
  linkHooks : List LinkHook := []

namespace Scheduler

def ofFormats (formats : List InputFormat) : Scheduler :=
  { frontends := formats.map fun format => { format := format } }

/-- A scheduler for ABC blocks and properties files. -/
def standard : Scheduler := ofFormats [.abc, .properties]

def frontend? (s : Scheduler) (mime : String) : Option Frontend := s.frontends.find? fun f => f.supports mime

/-- Attach an extension to the first front end that supports a MIME type. -/
def attachTo (mime : String) (extension : Extension) : List Frontend → List Frontend
  | [] => []
  | f :: rest => if f.supports mime then f.attach extension :: rest else f :: attachTo mime extension rest

/-- Attach an extension; `false` tells that no front end supports the MIME type. -/
def attach (s : Scheduler) (mime : String) (extension : Extension) : Bool × Scheduler :=
  ((s.frontend? mime).isSome, { s with frontends := attachTo mime extension s.frontends })

def addLinkHook (s : Scheduler) (hook : LinkHook) : Scheduler :=
  { s with linkHooks := s.linkHooks ++ [hook] }

/-- The scheduler on one line. -/
def describe (s : Scheduler) : String :=
  Text.record "Scheduler"
    [("compilers", Text.listed (s.frontends.map fun f => Text.quote f.format.name)),
     ("pre_link", toString s.linkHooks.length)]

/-- Report the sources that no front end reads. -/
def reportUnsupported (s : Scheduler) (cx : Context) : Context :=
  cx.sources.foldl
    (fun cx slot =>
      if (s.frontend? slot.source.mime).isSome then cx
      else cx.report .error (some slot.source.name) (.unsupportedMime slot.source.mime)) cx

/-- Run the first phase on the source at a place.  Its slot is empty meanwhile. -/
def parseAt (s : Scheduler) (cx : Context) (index : Nat) : Context :=
  match cx.sources[index]? with
  | none => cx
  | some slot =>
    match s.frontend? slot.source.mime with
    | none => cx
    | some frontend =>
      let (ok, unit, cx) := frontend.parse slot.source slot.unit (cx.putUnit index none)
      let unit := if ok then unit.map fun u => { u with lastPhase := some .parse1 } else unit
      cx.putUnit index unit

/-- Run the first phase on all sources. -/
def parseAll (s : Scheduler) (cx : Context) : Context :=
  (List.range cx.sources.length).foldl s.parseAt cx

/-- Note what a unit defines, and report what another source defines too. -/
def defineUnit (cx : Context) (u : BuildUnit) : Context :=
  let (registry, errors) := cx.registry.defineAll u.source.name u.topLevel
  errors.foldl (fun cx e => cx.report .error (some u.source.name) e.message) { cx with registry := registry }

/-- Note what all units define. -/
def defineUnits (cx : Context) : Context := cx.units.foldl defineUnit cx

/-- Run a later phase on the unit at a place.  Its slot is empty meanwhile. -/
def stepAt (s : Scheduler) (phase : Phase) (cx : Context) (index : Nat) : Context :=
  match cx.sources[index]? with
  | none => cx
  | some slot =>
    match s.frontend? slot.source.mime, slot.unit with
    | some frontend, some u =>
      let (u, cx) := frontend.step phase u (cx.putUnit index none)
      cx.putUnit index (some { u with lastPhase := some phase })
    | _, _ => cx

/-- Run a later phase on all units in order. -/
def stepAll (s : Scheduler) (order : List Nat) (phase : Phase) (cx : Context) : Context :=
  order.foldl (s.stepAt phase) cx

/-- Finish the units in order. -/
def finishAll (order : List Nat) (cx : Context) : Context :=
  order.foldl (fun cx index => cx.putUnit index ((cx.unit? index).map BuildUnit.markDone)) cx

/-- Run phases on all units until one reports an error; the answer is the phase that did. -/
def runPhases (s : Scheduler) (order : List Nat) : List Phase → Context → Option Phase × Context
  | [], cx => (none, cx)
  | phase :: rest, cx =>
    let cx := s.stepAll order phase cx
    if cx.hasErrors then (some phase, cx) else runPhases s order rest cx

/-- Run the hooks over the finished units. -/
def link (s : Scheduler) (cx : Context) : Context := s.linkHooks.foldl (fun cx hook => hook.run cx) cx

/-- Work on the parsed units in order. -/
def runOrdered (s : Scheduler) (order : List Nat) (cx : Context) : Outcome × Context :=
  match s.runPhases order Phase.later cx with
  | (some phase, cx) => (.stopped (some phase) order, cx)
  | (none, cx) =>
    let cx := s.link (finishAll order cx)
    (⟨!cx.hasErrors, some .postprocess, order⟩, cx)

/-- Build all sources. -/
def run (s : Scheduler) (cx : Context) : Outcome × Context :=
  let cx := s.reportUnsupported cx
  if cx.hasErrors then (.stopped none [], cx)
  else
    let cx := defineUnits (s.parseAll cx)
    if cx.hasErrors then (.stopped (some .parse1) [], cx)
    else
      match cx.dependencyOrder with
      | (none, cx) => (.stopped (some .parse1) [], cx)
      | (some order, cx) => s.runOrdered order cx

end Scheduler

end AbcBuild
