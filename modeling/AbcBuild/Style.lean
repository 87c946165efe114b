/-
Module: AbcBuild.Style
Purpose: Styles declared by metadata tags of classes, and tables of them.  The first declaration of a name
  stays; a later one of another class with other attributes is a conflict.
Main exports: Style, Style.sameShape, StyleTable, StyleTable.addAll
-/
import AbcBuild.Class.Metadata
import AbcBuild.Message.Basic
import AbcBuild.Name.Basic
import AbcBuild.Table

namespace AbcBuild

/-- A declared style. -/
structure Style where
  name : String
  typeName : Option String
  inherit : Option String
  format : Option String
  enumeration : Option String
  /-- The class that declares it. -/
  owner : QName
deriving Repr, DecidableEq, Inhabited

namespace Style

/-- The style that a `Style` tag with a name declares. -/
def ofMetadata? (tag : Metadata) (owner : QName) : Option Style :=
  if tag.name = "Style" then
    (tag.value? "name").map fun name =>
      { name := name
        typeName := tag.value? "type"
        inherit := tag.value? "inherit"
        format := tag.value? "format"
        enumeration := tag.value? "enumeration"
        owner := owner }
  else none

/-- Both have the same attributes, whoever declares them. -/
def sameShape (a b : Style) : Bool :=
  a.name = b.name && a.typeName = b.typeName && a.inherit = b.inherit && a.format = b.format
    && a.enumeration = b.enumeration

def isInherited (s : Style) : Bool := s.inherit = some "yes"

end Style

/-- Two classes declare a style differently. -/
structure StyleConflict where
  name : String
  existing : QName
  declaredBy : QName
deriving Repr, DecidableEq, Inhabited

/-- The message that reports a conflict. -/
def StyleConflict.message (c : StyleConflict) : Message :=
  .styleConflict c.name c.existing.text c.declaredBy.text

/-- Styles by name, in order of declaration. -/
abbrev StyleTable := Table String Style

namespace StyleTable

/-- The declaration conflicts with one of the same name from another class. -/
def conflict? (table : StyleTable) (style : Style) : Option StyleConflict :=
  match table.get? style.name with
  | some existing =>
    if existing.owner ≠ style.owner && !existing.sameShape style then
      some ⟨style.name, existing.owner, style.owner⟩
    else none
  | none => none

/-- Add a declaration whose name is new; tell of a conflict otherwise. -/
def add (table : StyleTable) (style : Style) : StyleTable × Option StyleConflict :=
  if table.contains style.name then (table, conflict? table style)
  else (table.insert style.name style, none)

/-- Add every declaration of a list, and tell of the first conflict. -/
def addList : StyleTable → List Style → StyleTable × Option StyleConflict
  | table, [] => (table, none)
  | table, style :: rest =>
    let (table, first) := add table style
    let (table, later) := addList table rest
    (table, first.or later)

/-- Merge another table, and tell of the first conflict. -/
def addAll (table other : StyleTable) : StyleTable × Option StyleConflict :=
  addList table other.values

end StyleTable

end AbcBuild
