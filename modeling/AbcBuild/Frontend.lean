/-
Module: AbcBuild.Frontend
Purpose: The front ends of a build, each for one MIME type, with the extensions attached to it.
Main exports: Frontend, Frontend.supports, Frontend.parse, Frontend.step
-/
import AbcBuild.Frontend.Abc
import AbcBuild.Frontend.Bundle

namespace AbcBuild

/-- What a front end reads. -/
inductive InputFormat where
  | abc
  | properties
deriving Repr, DecidableEq, Inhabited

namespace InputFormat

def name : InputFormat → String
  | .abc => "abc"
  | .properties => "properties"

def mime : InputFormat → String
  | .abc => Mime.abc
  | .properties => Mime.properties

end InputFormat

/-- A front end. -/
structure Frontend where
  format : InputFormat
  extensions : List Extension := []

namespace Frontend

def supports (f : Frontend) (mime : String) : Bool := f.format.mime = mime

def attach (f : Frontend) (extension : Extension) : Frontend :=
  { f with extensions := f.extensions ++ [extension] }

/-- Run the first phase: make the unit of a source, or take over the one in its slot.  The first result tells
    whether there is a unit to go on with. -/
def parse (f : Frontend) : Source → Option BuildUnit → Context → Bool × Option BuildUnit × Context :=
  match f.format with
  | .abc => AbcFrontend.parse f.extensions
  | .properties => BundleFrontend.parse f.extensions

/-- Run a later phase on a unit. -/
def step (f : Frontend) : Phase → BuildUnit → Context → BuildUnit × Context :=
  match f.format with
  | .abc => AbcFrontend.step f.extensions
  | .properties => BundleFrontend.step f.extensions

end Frontend

end AbcBuild
