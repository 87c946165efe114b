/-
Module: AbcBuild.Main
Purpose: The command line program.
Main exports: main
-/
import AbcBuild.Cli.Run

namespace AbcBuild.Cli

/-- The text of a fault that the system reports. -/
def faultText (e : IO.Error) : String :=
  match e with
  | .noFileOrDirectory .. => Fault.notFound.text
  | .alreadyExists .. => Fault.taken.text
  | .inappropriateType .. => Fault.isDirectory.text
  | other => toString other

/-- Run an action, and tell a fault as a text. -/
def attempt {α : Type} (action : IO α) : IO (Except String α) := do
  match ← action.toBaseIO with
  | .ok value => return .ok value
  | .error e => return .error (faultText e)

/-- The file system of the machine. -/
def machineDisk : Disk IO where
  read path := do
    let content ← attempt (IO.FS.readBinFile path)
    return content.map fun bytes => bytes.toList
  createDirectories path := attempt (IO.FS.createDirAll path)
  write path bytes := attempt (IO.FS.writeBinFile path (ByteArray.mk bytes.toArray))

end AbcBuild.Cli

/-- Build the files that the arguments name. -/
def main (arguments : List String) : IO UInt32 := do
  match AbcBuild.Cli.Options.parse? arguments with
  | none =>
    IO.eprintln "error: bad arguments"
    return AbcBuild.Cli.usageCode
  | some options =>
    let result ← AbcBuild.Cli.run AbcBuild.Cli.machineDisk options
    result.complaints.forM fun line => IO.eprintln line
    result.output.forM fun line => IO.println line
    return result.code
