/-
Module: AbcBuild.Class.Metadata
Purpose: Metadata tags of classes and members: a tag name with values, some of them under a key.
Main exports: Metadata, Metadata.value?
-/

namespace AbcBuild

/-- A metadata tag. -/
structure Metadata where
  name : String
  entries : List (Option String × String)
deriving Repr, DecidableEq, Inhabited

/-- The value of the first entry under the key. -/
def Metadata.value? (tag : Metadata) (key : String) : Option String :=
  (tag.entries.find? fun entry => entry.1 = some key).map Prod.snd

end AbcBuild
