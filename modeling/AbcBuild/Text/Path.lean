/-
Module: AbcBuild.Text.Path
Purpose: File paths as texts.  Pieces are divided by slashes; empty pieces and the piece `.` are ignored,
  except a `.` at the very start; a backslash is an ordinary character.
Main exports: Path.parent?, Path.fileStem?, Path.extension?, Path.join
-/
import AbcBuild.Text.Search

namespace AbcBuild.Path

/-- One step of a path. -/
inductive Component where
  /-- The slash at the start. -/
  | root
  /-- The `.` at the start. -/
  | current
  /-- A `..` anywhere. -/
  | up
  | named (name : List Char)
deriving Repr, DecidableEq

/-- How many characters stand before the body: the slash of an absolute path, or a `.` at the start. -/
def frontLength : List Char → Nat
  | '/' :: _ => 1
  | ['.'] => 1
  | '.' :: '/' :: _ => 1
  | _ => 0

/-- The last piece of a body, with what stands before its slash. -/
def lastPiece (body : List Char) : List Char × List Char :=
  match Text.splitLast? '/' body with
  | none => ([], body)
  | some cut => cut

/-- Drop ignored pieces from a body that is given backwards. -/
def dropIgnoredBackwards : List Char → List Char
  | '/' :: before => dropIgnoredBackwards before
  | '.' :: '/' :: before => dropIgnoredBackwards before
  | ['.'] => []
  | body => body

/-- A body without the ignored pieces at its end. -/
def dropIgnored (body : List Char) : List Char :=
  (dropIgnoredBackwards body.reverse).reverse

/-- The last component, with the path before it. -/
def last? (path : List Char) : Option (Component × List Char) :=
  let front := path.take (frontLength path)
  let body := dropIgnored (path.drop (frontLength path))
  if body.isEmpty then
    match front with
    | [] => none
    | c :: _ => if c = '/' then some (.root, []) else some (.current, [])
  else
    let (before, piece) := lastPiece body
    let component := if piece = ['.', '.'] then Component.up else Component.named piece
    some (component, front ++ dropIgnored before)

/-- The path that holds the last component; the root and the empty path have none. -/
def parent? (path : List Char) : Option (List Char) :=
  match last? path with
  | none => none
  | some (.root, _) => none
  | some (_, before) => some before

/-- The name at the end of a path. -/
def fileName? (path : List Char) : Option (List Char) :=
  match last? path with
  | some (.named name, _) => some name
  | _ => none

/-- A file name cut at its last dot.  A name whose only dot is its first character is not cut. -/
def cutAtDot? (name : List Char) : Option (List Char × List Char) :=
  match Text.splitLast? '.' name with
  | some ([], _) => none
  | cut => cut

/-- The file name without its extension. -/
def fileStem? (path : List Char) : Option (List Char) :=
  (fileName? path).map fun name =>
    match cutAtDot? name with
    | some (stem, _) => stem
    | none => name

/-- What follows the last dot of the file name. -/
def extension? (path : List Char) : Option (List Char) :=
  (fileName? path).bind fun name => (cutAtDot? name).map Prod.snd

/-- A file name inside a directory; an absolute name replaces the directory. -/
def join (directory name : List Char) : List Char :=
  match name with
  | '/' :: _ => name
  | _ =>
    if directory.isEmpty || directory.getLast? = some '/' then directory ++ name
    else directory ++ '/' :: name

end AbcBuild.Path
