/-
Module: AbcBuild.Frontend.Bundle
Purpose: The phases of a unit whose source is a properties file.  The file becomes a class with one public
  string constant for each entry.
Main exports: BundleFrontend.parse, BundleFrontend.step
-/
import AbcBuild.Abc.Builder
import AbcBuild.Abc.Encode
import AbcBuild.Extension
import AbcBuild.Publish
import AbcBuild.Text.Utf8

namespace AbcBuild.BundleFrontend

/-- The supertype of every bundle class. -/
def bundleClass : String := "mx.resources:ResourceBundle"

/-- The locale of a bundle: the name of the directory that holds its file. -/
def localeOf (source : Source) (fallback : String) : String :=
  match Path.fileName? source.parent.toList with
  | some name => String.ofList name
  | none => fallback

/-- The name of a source's bundle in the registry. -/
def bundleKey (source : Source) (fallback : String) : String :=
  PropertiesFile.keyOf (localeOf source fallback) source.shortName

/-- The entries of a source, or the message that tells why there are none. -/
def readEntries (source : Source) : Except Message (Table String String) :=
  match source.read with
  | .error reason => .error (.unreadable reason)
  | .ok bytes =>
    match Utf8.decode bytes with
    | .error fault => .error (.unreadable fault.message)
    | .ok text =>
      match Properties.parse text with
      | .error e => .error (.malformedProperties e.line e.fault.message)
      | .ok entries => .ok entries

/-- Enter a file into its unit. -/
def collect (file : PropertiesFile) (u : BuildUnit) : BuildUnit :=
  { u with
    topLevel := [file.className]
    dependencies := u.dependencies.extend { inheritance := [.qualified (QName.parse bundleClass)] }
    tree := some (.properties file) }

/-- Make or take over the unit of a source.  The first result tells whether there is one to go on with. -/
def parse (extensions : List Extension) (source : Source) (slot : Option BuildUnit) (cx : Context) :
    Bool × Option BuildUnit × Context :=
  let known := slot.filter fun u => u.hasTypeInfo || u.tree.isSome
  match known with
  | some u => (true, some u, cx)
  | none =>
    match readEntries source with
    | .error message => (false, slot, cx.report .error (some source.name) message)
    | .ok entries =>
      let file : PropertiesFile :=
        { locale := localeOf source cx.config.locale
          bundle := source.shortName
          entries := entries }
      let u := collect file (slot.getD (BuildUnit.ofSource source))
      let (ok, u, cx) := Extension.runAll extensions .parse1 u cx
      (ok, some u, cx)

/-- The slot of an entry. -/
def memberSlot (key : String) : MemberSlot :=
  { name := key
    space := ""
    isStatic := false
    kind := .const
    declaredType := some (.qualified (QName.unnamed "String"))
    resolvedType := some (QName.unnamed "String") }

/-- The frame of a file. -/
def frameOf (file : PropertiesFile) : Frame :=
  Frame.insertClass {}
    { name := file.className
      superName := some (.qualified (QName.parse bundleClass))
      members := file.entries.keys.map memberSlot }

/-- The constant of an entry. -/
def variableOf (owner key value : String) : Variable :=
  { name := key
    space := ""
    typeName := some "String"
    isConst := true
    isStatic := false
    value := some (.string value)
    metadata := []
    declaringClass := owner }

/-- The descriptor of a file. -/
def descriptorOf (file : PropertiesFile) (source : String) : ClassDescriptor :=
  { name := file.className.text
    superName := some bundleClass
    vars := file.entries.entries.map fun (key, value) => variableOf file.className.text key value
    source := some source }

/-- The description of the class from which the bytecode is built. -/
def specOf (file : PropertiesFile) : Abc.ClassSpec :=
  file.entries.entries.foldl
    (fun spec (key, value) => spec.constant key "String" (.string value) false)
    ((Abc.ClassSpec.named file.className.text).extending bundleClass)

/-- The bytecode of a file. -/
def bytecodeOf (file : PropertiesFile) : List UInt8 := (Abc.File.ofClasses [specOf file]).encode

/-- Build the frame. -/
def frame (extensions : List Extension) (u : BuildUnit) (cx : Context) : BuildUnit × Context :=
  match u.properties? with
  | none => (u, cx)
  | some file => Extension.finish extensions .analyze1 { u with typeInfo := some (frameOf file) } cx

/-- Register the bundle and publish its class. -/
def publish (extensions : List Extension) (u : BuildUnit) (cx : Context) : BuildUnit × Context :=
  let (registry, refused) :=
    cx.registry.registerBundle (bundleKey u.source cx.config.locale) u.topLevel u.source.name
  let cx := { cx with registry := registry }
  match refused with
  | some e => (u, cx.report .error (some u.source.name) e.message)
  | none =>
    let (table, cx) := cx.typeTable
    if u.hasTypeInfo then publishTable table u cx
    else
      match u.properties? with
      | none => (u, cx)
      | some file =>
        let (u, cx) := publishNew table [descriptorOf file u.source.name] u cx
        Extension.finish extensions .analyze4 u cx

/-- Build the bytecode, and drop what only the analysis needed. -/
def generate (extensions : List Extension) (u : BuildUnit) (cx : Context) : BuildUnit × Context :=
  let (ok, u, cx) := Extension.runAll extensions .generate u cx
  if ok then
    match u.properties? with
    | none => (u, cx)
    | some file =>
      (({ u with scratch := {}, typeInfo := u.typeInfo.map Frame.clean } : BuildUnit).setBytecode
        (bytecodeOf file), cx)
  else (u, cx)

/-- Run a phase after the first on a unit.  Nothing happens once the build has errors, and a unit that is
    taken over only publishes. -/
def step (extensions : List Extension) (phase : Phase) (u : BuildUnit) (cx : Context) :
    BuildUnit × Context :=
  if cx.hasErrors then (u, cx)
  else if u.hasTypeInfo && phase ≠ .analyze4 then (u, cx)
  else
    match phase with
    | .parse1 => (u, cx)
    | .parse2 => Extension.finish extensions .parse2 u cx
    | .analyze1 => frame extensions u cx
    | .analyze2 => Extension.finish extensions .analyze2 u cx
    | .analyze3 => Extension.finish extensions .analyze3 u cx
    | .analyze4 => publish extensions u cx
    | .generate => generate extensions u cx
    | .postprocess => (u, cx)

end AbcBuild.BundleFrontend
