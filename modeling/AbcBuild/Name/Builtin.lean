/-
Module: AbcBuild.Name.Builtin
Purpose: The types that exist without any source: the top-level classes of the language, and every vector
  type.
Main exports: QName.isBuiltin, Name.isBuiltin, Name.isVector
-/
import AbcBuild.Name.Basic

namespace AbcBuild

/-- The top-level classes that need no source. -/
def builtinTypes : List String :=
  ["int", "uint", "Number", "String", "Boolean", "Object", "void", "Array", "Function", "Class", "Namespace",
   "XML", "XMLList", "Date", "RegExp", "Error", "QName"]

/-- The namespace of the vector types. -/
def vectorSpace : String := "__AS3__.vec"

/-- The local name starts like that of a vector type. -/
def startsLikeVector (name : String) : Bool :=
  "Vector".toList.isPrefixOf name.toList

def QName.isVector (q : QName) : Bool :=
  q.space = vectorSpace && startsLikeVector q.name

/-- A top-level class of the language, or a vector type. -/
def QName.isBuiltin (q : QName) : Bool :=
  (q.isUnnamed && builtinTypes.contains q.name) || q.isVector

/-- Some candidate is builtin. -/
def Name.isBuiltin (n : Name) : Bool := n.candidates.any QName.isBuiltin

/-- The first builtin candidate. -/
def Name.builtin? (n : Name) : Option QName := n.candidates.find? QName.isBuiltin

/-- Some candidate is a vector type. -/
def Name.isVector (n : Name) : Bool := n.candidates.any QName.isVector

end AbcBuild
