/-
Module: AbcBuild.Analysis.Dependencies
Purpose: What a program defines, depends on and declares.
Main exports: Dependencies, Program.dependencies, Program.styles, Program.vectorTypes
-/
import AbcBuild.Name.Builtin
import AbcBuild.Program.Basic
import AbcBuild.Style

namespace AbcBuild

/-- The names that a program refers to, by the way it does. -/
structure Dependencies where
  inheritance : List Name := []
  types : List Name := []
  spaces : List Name := []
  expressions : List Name := []
deriving Repr, DecidableEq, Inhabited

namespace Dependencies

def append (a b : Dependencies) : Dependencies :=
  { inheritance := a.inheritance ++ b.inheritance
    types := a.types ++ b.types
    spaces := a.spaces ++ b.spaces
    expressions := a.expressions ++ b.expressions }

def concat (parts : List Dependencies) : Dependencies := parts.foldl append {}

/-- Keep some of the names. -/
def filter (d : Dependencies) (keep : Name → Bool) : Dependencies :=
  { inheritance := d.inheritance.filter keep
    types := d.types.filter keep
    spaces := d.spaces.filter keep
    expressions := d.expressions.filter keep }

end Dependencies

/-- The definition that declares a namespace: its URI is a qualified name in colon form.  Other URIs are
    opaque. -/
def spaceDefinition? (uri : String) : Option QName :=
  if Text.occursIn "://".toList uri.toList || !uri.toList.contains ':' then none else some (QName.parse uri)

/-- The class that a tag names. -/
def Metadata.classReference? (tag : Metadata) : Option Name :=
  let value :=
    if tag.name = "Frame" then tag.value? "factoryClass"
    else if tag.name = "Event" then tag.value? "type"
    else none
  (value.filter fun name => !name.isEmpty).map fun name => .qualified (QName.parse name)

/-- The types that a member mentions, parameters before the return type. -/
def TraitBody.types : TraitBody → List Name
  | .slot typeName _ _ => typeName.toList
  | .method _ params returnType => params.filterMap ParamDef.typeName ++ returnType.toList
  | .function params returnType => params.filterMap ParamDef.typeName ++ returnType.toList
  | .classRef _ => []

/-- What a member refers to.  Only in a namespace whose lookup key is its URI can the URI name a
    definition. -/
def TraitDef.dependencies (d : TraitDef) : Dependencies :=
  { types := d.body.types
    spaces := if d.space = d.uri then ((spaceDefinition? d.uri).map Name.qualified).toList else []
    expressions := d.metadata.filterMap Metadata.classReference? }

/-- What a class refers to. -/
def ClassDef.dependencies (c : ClassDef) : Dependencies :=
  let header : Dependencies :=
    { inheritance := c.superName.toList ++ c.interfaces
      expressions := c.metadata.filterMap Metadata.classReference? }
  Dependencies.concat (header :: c.traits.map TraitDef.dependencies)

namespace Program

/-- What a program refers to, without its own definitions and builtin types. -/
def dependencies (p : Program) : Dependencies :=
  let all := Dependencies.concat
    (p.classes.map ClassDef.dependencies ++ p.definitions.map fun (_, d) => d.dependencies)
  all.filter fun n => !(p.topLevel.map Name.qualified).contains n && !n.isBuiltin

/-- The styles that the classes declare, in order. -/
def styles (p : Program) : List Style :=
  p.classes.flatMap fun c => c.metadata.filterMap fun tag => Style.ofMetadata? tag c.name

/-- Without later repetitions. -/
def distinct : List Name → List Name
  | [] => []
  | n :: rest => n :: (distinct rest).filter (· ≠ n)

/-- The vector types that supertypes and members mention: first the supertypes, then the members, each
    once. -/
def vectorTypes (p : Program) : List Name :=
  let supertypes := p.classes.filterMap ClassDef.superName
  let members := p.classes.flatMap ClassDef.traits ++ p.definitions.map Prod.snd
  distinct ((supertypes ++ members.flatMap fun d => d.body.types).filter Name.isVector)

end Program

end AbcBuild
