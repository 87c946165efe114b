/-
Module: AbcBuild.BuildUnit
Purpose: What a build knows of one source.  A part of it can be kept and serve a later build.
Main exports: DependencySet, UnitInfo, BuildUnit, BuildUnit.reset
-/
import AbcBuild.Analysis.Constants
import AbcBuild.Analysis.Dependencies
import AbcBuild.Phase
import AbcBuild.Properties
import AbcBuild.Registry
import AbcBuild.Source

namespace AbcBuild

/-- What parsing a source gives. -/
inductive ParseTree where
  | abc (program : Program)
  | properties (file : PropertiesFile)
deriving Repr, Inhabited

/-- What analyses leave for later phases.  It is empty when a unit is generated. -/
structure Scratch where
  /-- The classes whose inheritance is to be bound. -/
  flow : Option (List QName) := none
  /-- The types of data slots. -/
  constants : Option SlotTypes := none
  /-- The sources whose frames are taken over. -/
  processed : Option (List String) := none
  /-- The names that no frame knew. -/
  unresolved : List Name := []
deriving Repr, DecidableEq, Inhabited

def Scratch.isEmpty (s : Scratch) : Bool :=
  s.flow.isNone && s.constants.isNone && s.processed.isNone && s.unresolved.isEmpty

/-- One of the ways to depend on a name. -/
inductive DependencySet where
  | inheritance
  | types
  | spaces
  | expressions
deriving Repr, DecidableEq, Inhabited

def Dependencies.ofSet (d : Dependencies) : DependencySet → List Name
  | .inheritance => d.inheritance
  | .types => d.types
  | .spaces => d.spaces
  | .expressions => d.expressions

/-- Add the names that are not there yet. -/
def addNames (known : List Name) : List Name → List Name
  | [] => known
  | n :: rest => addNames (if known.contains n then known else known ++ [n]) rest

/-- Add dependencies, each name of a set once. -/
def Dependencies.extend (d more : Dependencies) : Dependencies :=
  { inheritance := addNames d.inheritance more.inheritance
    types := addNames d.types more.types
    spaces := addNames d.spaces more.spaces
    expressions := addNames d.expressions more.expressions }

/-- What a later build can take over of a unit. -/
structure UnitInfo where
  /-- The classes that the unit published, by name. -/
  classTable : Table String ClassId := .empty
  typeInfo : Option Frame := none
  dependencies : Dependencies := {}
  topLevel : List QName := []
  styles : StyleTable := .empty
  /-- The class that loads the unit's application. -/
  loaderBase : Option String := none
deriving Repr, DecidableEq, Inhabited

/-- A source in a build. -/
structure BuildUnit extends UnitInfo where
  source : Source
  tree : Option ParseTree := none
  /-- The unit is taken over from an earlier build, so its analysis is not repeated. -/
  hasTypeInfo : Bool := false
  bytes : List UInt8 := []
  scratch : Scratch := {}
  bytecodeAvailable : Bool := false
  done : Bool := false
  lastPhase : Option Phase := none
deriving Inhabited

namespace BuildUnit

/-- A unit about which nothing is known. -/
def ofSource (source : Source) : BuildUnit := { source := source }

/-- A unit taken over from an earlier build. -/
def ofInfo (source : Source) (info : UnitInfo) : BuildUnit :=
  { toUnitInfo := info, source := source, hasTypeInfo := true }

def program? (u : BuildUnit) : Option Program :=
  match u.tree with
  | some (.abc program) => some program
  | _ => none

def properties? (u : BuildUnit) : Option PropertiesFile :=
  match u.tree with
  | some (.properties file) => some file
  | _ => none

/-- Store generated bytecode. -/
def setBytecode (u : BuildUnit) (bytes : List UInt8) : BuildUnit :=
  { u with bytes := bytes, bytecodeAvailable := true }

/-- Finish a unit: its analysis is dropped, and its type information, if any, may serve again. -/
def markDone (u : BuildUnit) : BuildUnit :=
  { u with scratch := {}, hasTypeInfo := u.typeInfo.isSome, done := true }

/-- Forget everything but the source. -/
def reset (u : BuildUnit) : BuildUnit := ofSource u.source

/-- Forget the type information and the published classes. -/
def removeTypeInfo (u : BuildUnit) : BuildUnit :=
  { u with typeInfo := none, classTable := .empty, hasTypeInfo := false }

/-- The unit still holds a class. -/
def holds (u : BuildUnit) (id : ClassId) : Bool := u.classTable.values.contains id

/-- The state flags on one line. -/
def describeState (u : BuildUnit) : String :=
  let flags :=
    (if u.bytecodeAvailable then ["BYTECODE_AVAILABLE"] else []) ++ (if u.done then ["DONE"] else [])
  "UnitState(" ++ (if flags.isEmpty then "0x0" else Text.joinWith " | " flags) ++ ")"

/-- The unit on one line. -/
def describe (u : BuildUnit) : String :=
  Text.record "CompilationUnit"
    [("source", Text.quote u.source.name),
     ("has_type_info", Text.truth u.hasTypeInfo),
     ("classes", toString u.classTable.size),
     ("state", u.describeState),
     ("last_phase", Text.optional (u.lastPhase.map Phase.label))]

end BuildUnit

/-- The state of a program as one word. -/
def ProgramState.label : ProgramState → String
  | .fresh => "Inheritance"
  | .framed => "Else"

/-- The tree on one line. -/
def ParseTree.describe : ParseTree → String
  | .abc program =>
    Text.record "Abc" [("classes", toString program.classes.length), ("state", program.state.label)]
  | .properties file =>
    let entries := file.entries.entries.map fun (key, value) => Text.quote key ++ ": " ++ Text.quote value
    "Properties(" ++
      Text.record "PropertiesFile"
        [("locale", Text.quote file.locale),
         ("bundle", Text.quote file.bundle),
         ("entries", "\x7b" ++ Text.joinWith ", " entries ++ "\x7d")] ++ ")"

end AbcBuild
