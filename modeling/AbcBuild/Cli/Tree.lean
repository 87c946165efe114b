/-
Module: AbcBuild.Cli.Tree
Purpose: Directories and files in memory, with the faults that a file system reports.
Main exports: Cli.Disk, Cli.Fault, Cli.Tree, Cli.Tree.disk
-/
import AbcBuild.Table
import AbcBuild.Text.Path

namespace AbcBuild.Cli

/-- What a program asks of a file system.  Faults are told as texts. -/
structure Disk (m : Type → Type) where
  read : String → m (Except String (List UInt8))
  /-- Create a directory and those above it; an existing one is fine. -/
  createDirectories : String → m (Except String PUnit)
  /-- Write a file; an existing one is replaced. -/
  write : String → List UInt8 → m (Except String PUnit)

/-- Why a file system refuses. -/
inductive Fault where
  | notFound
  | taken
  | notDirectory
  | isDirectory
deriving Repr, DecidableEq, Inhabited

def Fault.text : Fault → String
  | .notFound => "No such file or directory (os error 2)"
  | .taken => "File exists (os error 17)"
  | .notDirectory => "Not a directory (os error 20)"
  | .isDirectory => "Is a directory (os error 21)"

/-- What stands at a place. -/
inductive Entry where
  | directory
  | file (bytes : List UInt8)
deriving Repr, DecidableEq, Inhabited

/-- The names that lead from the root to a place. -/
abbrev Place := List (List Char)

/-- Directories and files, by place, and the directory where relative paths start.  The root is always
    there. -/
structure Tree where
  entries : Table Place Entry := .empty
  working : Place := []
deriving Repr, DecidableEq, Inhabited

namespace Tree

def entry? (t : Tree) (place : Place) : Option Entry :=
  if place.isEmpty then some .directory else t.entries.get? place

/-- Divide a path at its slashes. -/
def pieces : List Char → List (List Char)
  | [] => [[]]
  | c :: rest =>
    if c = '/' then [] :: pieces rest
    else
      match pieces rest with
      | [] => [[c]]
      | piece :: more => (c :: piece) :: more

/-- The steps of a path.  A slash at the end asks for a directory, as the step `.` does. -/
def steps (path : List Char) : List (List Char) :=
  let named := (pieces path).filter fun piece => !piece.isEmpty
  if path.getLast? = some '/' then named ++ [['.']] else named

/-- Where a path starts. -/
def start (t : Tree) (path : List Char) : Place := if path.head? = some '/' then [] else t.working

/-- The place that one step leads to, from a place that has to be a directory. -/
def stepTo (t : Tree) (place : Place) (step : List Char) : Except Fault Place :=
  match t.entry? place with
  | none => .error .notFound
  | some (.file _) => .error .notDirectory
  | some .directory =>
    if step = ['.'] then .ok place
    else if step = ['.', '.'] then .ok place.dropLast
    else .ok (place ++ [step])

/-- The place that steps lead to. -/
def follow (t : Tree) : Place → List (List Char) → Except Fault Place
  | place, [] => .ok place
  | place, step :: rest =>
    match t.stepTo place step with
    | .error fault => .error fault
    | .ok next => follow t next rest

/-- What stands at the end of a path. -/
def find (t : Tree) (path : List Char) : Except Fault Entry :=
  match t.follow (t.start path) (steps path) with
  | .error fault => .error fault
  | .ok place =>
    match t.entry? place with
    | none => .error .notFound
    | some entry => .ok entry

def isDirectory (t : Tree) (path : List Char) : Bool :=
  match t.find path with
  | .ok .directory => true
  | _ => false

def read (t : Tree) (path : List Char) : Except Fault (List UInt8) :=
  match t.find path with
  | .error fault => .error fault
  | .ok .directory => .error .isDirectory
  | .ok (.file bytes) => .ok bytes

/-- The directory in which a path names something new, and that name; slashes at the end do not count. -/
def newcomer (t : Tree) (path : List Char) : Except Fault (Place × Option (List Char)) :=
  let named := (pieces path).filter fun piece => !piece.isEmpty
  match t.follow (t.start path) named.dropLast with
  | .error fault => .error fault
  | .ok place =>
    match t.entry? place with
    | none => .error .notFound
    | some (.file _) => .error .notDirectory
    | some .directory =>
      .ok (place, named.getLast?.filter fun name => name ≠ ['.'] && name ≠ ['.', '.'])

/-- Create one directory. -/
def createDirectory (t : Tree) (path : List Char) : Except Fault Tree :=
  match t.newcomer path with
  | .error fault => .error fault
  | .ok (_, none) => .error .taken
  | .ok (place, some name) =>
    if (t.entry? (place ++ [name])).isSome then .error .taken
    else .ok { t with entries := t.entries.insert (place ++ [name]) .directory }

/-- Create a directory, or be content with an existing one. -/
def ensureDirectory (t : Tree) (path : List Char) : Except Fault Tree :=
  match t.createDirectory path with
  | .ok t => .ok t
  | .error fault => if t.isDirectory path then .ok t else .error fault

/-- Create a directory and those above it; `levels` bounds their number. -/
def createWithin : Nat → Tree → List Char → Tree × Option Fault
  | 0, t, _ => (t, none)
  | levels + 1, t, path =>
    if path.isEmpty then (t, none)
    else
      match t.ensureDirectory path with
      | .ok t => (t, none)
      | .error .notFound =>
        match Path.parent? path with
        | none => (t, some .notFound)
        | some parent =>
          match createWithin levels t parent with
          | (t, some fault) => (t, some fault)
          | (t, none) =>
            match t.ensureDirectory path with
            | .ok t => (t, none)
            | .error fault => (t, some fault)
      | .error fault => (t, some fault)

/-- Create a directory and those above it.  Each of them has a shorter path. -/
def createDirectories (t : Tree) (path : List Char) : Tree × Option Fault :=
  createWithin (path.length + 1) t path

/-- Write a file. -/
def write (t : Tree) (path : List Char) (bytes : List UInt8) : Except Fault Tree :=
  match t.newcomer path with
  | .error fault => .error fault
  | .ok (_, none) => .error .isDirectory
  | .ok (place, some name) =>
    if path.getLast? = some '/' || t.entry? (place ++ [name]) = some .directory then .error .isDirectory
    else .ok { t with entries := t.entries.insert (place ++ [name]) (.file bytes) }

/-- Put an entry at a path, with the directories above it. -/
def put (t : Tree) (path : List Char) : Entry → Tree
  | .directory => (t.createDirectories path).1
  | .file bytes =>
    let t := (t.createDirectories ((Path.parent? path).getD [])).1
    match t.write path bytes with
    | .ok t => t
    | .error _ => t

/-- A tree whose working directory, below the root, holds entries. -/
def ofEntries (entries : List (List Char × Entry)) : Tree :=
  let name := "work".toList
  let home : Tree := { entries := Table.empty.insert [name] .directory, working := [name] }
  entries.foldl (fun t (path, entry) => t.put path entry) home

/-- The files below the working directory, with their paths from there. -/
def files (t : Tree) : List (String × List UInt8) :=
  t.entries.entries.filterMap fun (place, entry) =>
    match entry with
    | .directory => none
    | .file bytes =>
      (t.working.isPrefixOf? place).map fun rest =>
        (String.intercalate "/" (rest.map String.ofList), bytes)

/-- A tree in which a program can work. -/
def disk : Disk (StateM Tree) where
  read path := return ((← get).read path.toList).mapError Fault.text
  createDirectories path := do
    let (t, fault) := (← get).createDirectories path.toList
    set t
    match fault with
    | none => return .ok ⟨⟩
    | some fault => return .error fault.text
  write path bytes := do
    match (← get).write path.toList bytes with
    | .ok t =>
      set t
      return .ok ⟨⟩
    | .error fault => return .error fault.text

end Tree

end AbcBuild.Cli
