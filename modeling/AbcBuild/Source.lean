/-
Module: AbcBuild.Source
Purpose: The inputs of a build: a name, the directory that holds it, a MIME type and the bytes, or the reason
  why they cannot be read.
Main exports: Mime.ofExtension?, Source, Source.ofPath, Source.shortName, Source.read
-/
import AbcBuild.Text.Path
import AbcBuild.Text.Quoted

namespace AbcBuild

namespace Mime

def abc : String := "application/x-abc"

def properties : String := "text/x-properties"

/-- The type of a file that no extension tells. -/
def unknown : String := "application/octet-stream"

/-- The MIME type that a file extension stands for, upper and lower case ASCII letters alike. -/
def ofExtension? (extension : List Char) : Option String :=
  let lower := String.ofList (extension.map Char.toLower)
  if lower = "abc" then some abc
  else if lower = "properties" then some properties
  else if lower = "as" then some "text/x-actionscript"
  else if lower = "mxml" then some "text/x-mxml"
  else if lower = "css" then some "text/css"
  else none

end Mime

/-- One input of a build. -/
structure Source where
  name : String
  parent : String
  mime : String
  /-- The bytes, or why they cannot be read. -/
  content : Except String (List UInt8)
deriving Inhabited

namespace Source

/-- The source of a file: its parent is the directory, its MIME type comes from the extension unless
    given. -/
def ofPath (path : String) (mime : Option String) (content : Except String (List UInt8)) : Source :=
  { name := path
    parent := String.ofList ((Path.parent? path.toList).getD [])
    mime := (mime.or ((Path.extension? path.toList).bind Mime.ofExtension?)).getD Mime.unknown
    content := content }

/-- The last piece of the name after a slash or backslash, without what follows its last dot. -/
def shortName (s : Source) : String :=
  let isSlash (c : Char) : Bool := c = '/' || c = '\\'
  let file := (s.name.toList.reverse.takeWhile fun c => !isSlash c).reverse
  match Text.splitLast? '.' file with
  | some (stem, _) => String.ofList stem
  | none => String.ofList file

/-- The bytes, or a message that tells which source cannot be read. -/
def read (s : Source) : Except String (List UInt8) :=
  match s.content with
  | .ok bytes => .ok bytes
  | .error cause => .error ("cannot read '" ++ s.name ++ "': " ++ cause)

/-- The source on one line. -/
def describe (s : Source) : String :=
  Text.record "Source" [("name", Text.quote s.name), ("mime_type", Text.quote s.mime)]

end Source

end AbcBuild
