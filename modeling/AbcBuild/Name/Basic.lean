/-
Module: AbcBuild.Name.Basic
Purpose: The names of definitions.  A qualified name belongs to one namespace; a multiname leaves the
  namespace open among several candidates.
Main exports: QName, QName.parse, MultiName, Name
-/
import AbcBuild.Text.Search

namespace AbcBuild

/-- A name in one namespace.  The empty namespace is the unnamed package. -/
structure QName where
  space : String
  name : String
deriving Repr, DecidableEq, Inhabited

namespace QName

/-- A name in the unnamed package. -/
def unnamed (name : String) : QName := ⟨"", name⟩

def isUnnamed (q : QName) : Bool := q.space.isEmpty

/-- Read a name in colon or dotted form: the last colon divides, else the last dot, else there is no
    namespace. -/
def parse (text : String) : QName :=
  match Text.splitLast? ':' text.toList with
  | some (space, name) => ⟨String.ofList space, String.ofList name⟩
  | none =>
    match Text.splitLast? '.' text.toList with
    | some (space, name) => ⟨String.ofList space, String.ofList name⟩
    | none => unnamed text

/-- Colon form; a name of the unnamed package stands alone. -/
def text (q : QName) : String :=
  if q.isUnnamed then q.name else q.space ++ ":" ++ q.name

/-- Dotted form, as loader classes are written. -/
def dotted (q : QName) : String :=
  if q.isUnnamed then q.name else q.space ++ "." ++ q.name

end QName

/-- A local name with the namespaces that may hold it. -/
structure MultiName where
  spaces : List String
  name : String
deriving Repr, DecidableEq, Inhabited

namespace MultiName

/-- The qualified names that may be meant, in namespace order. -/
def candidates (m : MultiName) : List QName := m.spaces.map (⟨·, m.name⟩)

def text (m : MultiName) : String :=
  "\x7b" ++ Text.joinWith "," m.spaces ++ "\x7d::" ++ m.name

/-- The first candidate, or the local name in the unnamed package. -/
def first (m : MultiName) : QName := ⟨m.spaces.head?.getD "", m.name⟩

end MultiName

/-- A reference to a definition. -/
inductive Name where
  | qualified (q : QName)
  | multi (m : MultiName)
deriving Repr, DecidableEq, Inhabited

namespace Name

/-- The qualified names that may be meant. -/
def candidates : Name → List QName
  | .qualified q => [q]
  | .multi m => m.candidates

def localName : Name → String
  | .qualified q => q.name
  | .multi m => m.name

def text : Name → String
  | .qualified q => q.text
  | .multi m => m.text

/-- The qualified name that stands for the reference: itself, or the first candidate. -/
def first : Name → QName
  | .qualified q => q
  | .multi m => m.first

end Name

end AbcBuild
