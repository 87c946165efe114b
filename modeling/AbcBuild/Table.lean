/-
Module: AbcBuild.Table
Purpose: Tables that keep the order in which their keys were first put in.  Putting a known key again
  replaces its value and leaves its place.
Main exports: Table, Table.get?, Table.insert, Table.modify
-/

namespace AbcBuild

/-- A table from keys to values, in order of first insertion. -/
structure Table (κ : Type) (ν : Type) where
  entries : List (κ × ν)
deriving Repr, DecidableEq

namespace Table

variable {κ ν : Type}

/-- The table without entries. -/
def empty : Table κ ν := ⟨[]⟩

instance : Inhabited (Table κ ν) := ⟨empty⟩

/-- The keys in order. -/
def keys (t : Table κ ν) : List κ := t.entries.map Prod.fst

/-- The values in the order of their keys. -/
def values (t : Table κ ν) : List ν := t.entries.map Prod.snd

def size (t : Table κ ν) : Nat := t.entries.length

def isEmpty (t : Table κ ν) : Bool := t.entries.isEmpty

variable [DecidableEq κ]

/-- The value of the first entry with the key. -/
def lookup (key : κ) : List (κ × ν) → Option ν
  | [] => none
  | (k, v) :: rest => if k = key then some v else lookup key rest

/-- Give the first entry with the key a new value, or append one. -/
def put (key : κ) (value : ν) : List (κ × ν) → List (κ × ν)
  | [] => [(key, value)]
  | (k, v) :: rest => if k = key then (k, value) :: rest else (k, v) :: put key value rest

/-- Drop the first entry with the key. -/
def drop (key : κ) : List (κ × ν) → List (κ × ν)
  | [] => []
  | (k, v) :: rest => if k = key then rest else (k, v) :: drop key rest

def get? (t : Table κ ν) (key : κ) : Option ν := lookup key t.entries

def contains (t : Table κ ν) (key : κ) : Bool := (t.get? key).isSome

def insert (t : Table κ ν) (key : κ) (value : ν) : Table κ ν := ⟨put key value t.entries⟩

def erase (t : Table κ ν) (key : κ) : Table κ ν := ⟨drop key t.entries⟩

/-- Change the value of a key that is present. -/
def modify (t : Table κ ν) (key : κ) (change : ν → ν) : Table κ ν :=
  match t.get? key with
  | none => t
  | some value => t.insert key (change value)

/-- The table of a list; a later value of a key wins, its first place stays. -/
def ofList (entries : List (κ × ν)) : Table κ ν :=
  entries.foldl (fun t (key, value) => t.insert key value) empty

/-- Both tables give the same value to every key, in whatever order. -/
def sameEntries [DecidableEq ν] (a b : Table κ ν) : Bool :=
  a.size = b.size && a.entries.all fun (key, value) => b.get? key = some value

end Table

end AbcBuild
