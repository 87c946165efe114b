/-
Module: AbcBuild.Cli.Run
Purpose: What the command line does: read the files, build them, report, and write the bytecode.
Main exports: Cli.Result, Cli.outputPath, Cli.writeBytecode, Cli.run
-/
import AbcBuild.Cli.Arguments
import AbcBuild.Cli.Tree
import AbcBuild.Compilation
import AbcBuild.Text.Lines

namespace AbcBuild.Cli

/-- What a run prints, line by line, and its exit code. -/
structure Result where
  code : UInt32
  output : List String := []
  complaints : List String := []
deriving Repr, DecidableEq, Inhabited

/-- Texts one below the other, each followed by a line end. -/
def stacked (texts : List String) : String := String.ofList (texts.flatMap fun text => text.toList ++ ['\n'])

/-- The lines that stand in the output.  A text with line ends in it takes up several. -/
def Result.printed (r : Result) : List String := (Text.lines (stacked r.output).toList).map String.ofList

/-- What a run tells about faults. -/
def Result.told (r : Result) : String := stacked r.complaints

/-- The exit code for bad arguments. -/
def usageCode : UInt32 := 2

variable {m : Type → Type} [Monad m]

/-- The sources of files. -/
def readSources (disk : Disk m) : List String → m (List Source)
  | [] => return []
  | path :: rest => do
    let content ← disk.read path
    let more ← readSources disk rest
    return Source.ofPath path none content :: more

/-- The file for the bytecode of a source. -/
def outputPath (directory source : String) : String :=
  let stem := (Path.fileStem? source.toList).getD source.toList
  String.ofList (Path.join directory.toList (stem ++ ".abc".toList))

/-- Write files until one fails, and tell of that. -/
def writeFiles (disk : Disk m) (directory : String) : List (String × List UInt8) → m (Option String)
  | [] => return none
  | (source, bytes) :: rest => do
    let path := outputPath directory source
    match ← disk.write path bytes with
    | .ok _ => writeFiles disk directory rest
    | .error cause => return some ("error: cannot write '" ++ path ++ "': " ++ cause)

/-- Write the bytecode of all units that have some into a directory. -/
def writeBytecode (disk : Disk m) (directory : String) (bytecode : Table String (List UInt8)) :
    m (Option String) := do
  match ← disk.createDirectories directory with
  | .error cause => return some ("error: cannot create '" ++ directory ++ "': " ++ cause)
  | .ok _ => writeFiles disk directory (bytecode.entries.filter fun e => !e.2.isEmpty)

/-- The diagnostics in the language of the catalogue. -/
def rendered (catalogue : Catalogue) (diagnostics : List Diagnostic) : List String :=
  diagnostics.map fun d => d.render catalogue

/-- Build the files. -/
def run (disk : Disk m) (options : Options) : m Result := do
  let config := options.config
  let catalogue := Catalogue.ofLocale config.locale
  let sources ← readSources disk options.files
  let compilation := sources.foldl Compilation.addSource { config := config }
  match compilation.build.1 with
  | .error e =>
    return { code := 1, complaints := rendered catalogue e.diagnostics ++ ["error: " ++ e.text] }
  | .ok report =>
    let listed := if options.listClasses then report.classes.keys else []
    let told := rendered catalogue report.diagnostics
    match options.output with
    | none => return { code := 0, output := listed, complaints := told }
    | some directory =>
      match ← writeBytecode disk directory report.bytecode with
      | none => return { code := 0, output := listed, complaints := told }
      | some complaint => return { code := 1, output := listed, complaints := told ++ [complaint] }

end AbcBuild.Cli
