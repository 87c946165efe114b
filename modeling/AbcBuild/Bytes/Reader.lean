/-
Module: AbcBuild.Bytes.Reader
Purpose: Reading the primitive encodings from bytes: single bytes, little-endian words, integers in groups of
  seven bits, doubles, and texts with their length.  A reading that fails leaves the cursor where it stopped.
Main exports: Cursor, DecodeError, Reader, Reader.counted
-/
import AbcBuild.Bytes.Hex
import AbcBuild.Number.Double
import AbcBuild.Text.Utf8

namespace AbcBuild

/-- The tables that an index can point into. -/
inductive TableKind where
  | int
  | uint
  | double
  | string
  | space
  | spaceSet
  | multiname
  | method
  | metadata
  | instances
deriving Repr, DecidableEq, Inhabited

def TableKind.text : TableKind → String
  | .int => "int"
  | .uint => "uint"
  | .double => "double"
  | .string => "string"
  | .space => "namespace"
  | .spaceSet => "ns_set"
  | .multiname => "multiname"
  | .method => "method"
  | .metadata => "metadata"
  | .instances => "class"

/-- The things that a byte tells the kind of. -/
inductive Tagged where
  | space
  | multiname
  | constant
  | member
deriving Repr, DecidableEq, Inhabited

def Tagged.text : Tagged → String
  | .space => "namespace"
  | .multiname => "multiname"
  | .constant => "constant"
  | .member => "trait"

/-- Why a block cannot be decoded or its names cannot be resolved. -/
inductive DecodeError where
  | unexpectedEnd (offset : Nat)
  | integerTooLong (offset : Nat)
  | invalidText (offset : Nat)
  | indexOutOfRange (table : TableKind) (index size : Nat)
  | unknownKind (what : Tagged) (kind : UInt8)
  | unsupportedVersion (major minor : UInt16)
  | trailingBytes (count : Nat)
deriving Repr, DecidableEq, Inhabited

namespace DecodeError

def text : DecodeError → String
  | .unexpectedEnd offset => "unexpected end of data at offset " ++ toString offset
  | .integerTooLong offset => "variable-length integer at offset " ++ toString offset ++ " is too long"
  | .invalidText offset => "invalid UTF-8 string at offset " ++ toString offset
  | .indexOutOfRange table index size =>
    table.text ++ " index " ++ toString index ++ " is out of range (size " ++ toString size ++ ")"
  | .unknownKind what kind => "unknown " ++ what.text ++ " kind 0x" ++ Hex.byteText kind
  | .unsupportedVersion major minor =>
    "unsupported ABC version " ++ toString major.toNat ++ "." ++ toString minor.toNat
  | .trailingBytes count => toString count ++ " trailing bytes after the last method body"

end DecodeError

/-- A place in an input: how many bytes were read, and those that are left. -/
structure Cursor where
  position : Nat
  rest : List UInt8
deriving Repr, DecidableEq, Inhabited

/-- A reading from a cursor. -/
abbrev Reader := EStateM DecodeError Cursor

namespace Reader

/-- The cursor at the start of an input. -/
def start (bytes : List UInt8) : Cursor := ⟨0, bytes⟩

/-- The next byte. -/
def u8 : Reader UInt8 := fun c =>
  match c.rest with
  | [] => .error (.unexpectedEnd c.position) c
  | b :: rest => .ok b ⟨c.position + 1, rest⟩

/-- The next `n` bytes, all or none. -/
def bytes (n : Nat) : Reader (List UInt8) := fun c =>
  if n ≤ c.rest.length then .ok (c.rest.take n) ⟨c.position + n, c.rest.drop n⟩
  else .error (.unexpectedEnd (c.position + c.rest.length)) c

/-- The number that bytes stand for, least significant first. -/
def littleEndian (bytes : List UInt8) : Nat :=
  bytes.foldr (fun b value => b.toNat + 256 * value) 0

def u16 : Reader UInt16 := do
  let taken ← bytes 2
  return UInt16.ofNat (littleEndian taken)

def d64 : Reader Double := do
  let taken ← bytes 8
  return ⟨UInt64.ofNat (littleEndian taken)⟩

/-- The groups of seven bits of an integer, least significant first, of which `left` may follow.  The high
    bit of a byte tells that another group follows. -/
def groupsWithin : Nat → Reader (List Nat)
  -- five groups were read, so the integer started five bytes before
  | 0 => fun c => .error (.integerTooLong (c.position - 5)) c
  | left + 1 => do
    let b ← u8
    if b.toNat < 128 then return [b.toNat]
    else
      let more ← groupsWithin left
      return (b.toNat - 128) :: more

/-- The groups of an integer, at most five. -/
def groups : Reader (List Nat) := groupsWithin 5

/-- The number that groups of seven bits stand for. -/
def groupsValue (groups : List Nat) : Nat :=
  groups.foldr (fun g value => g + 128 * value) 0

/-- An unsigned integer; bits past the 32nd are dropped. -/
def u32 : Reader UInt32 := do
  let found ← groups
  return UInt32.ofNat (groupsValue found)

/-- An index or a count: the 30 low bits of an unsigned integer, a number below 2^30. -/
def u30 : Reader Nat := do
  let value ← u32
  return value.toNat % 1073741824

/-- The integer that groups stand for when the highest bit of the last group is its sign.  Five groups hold
    more than 32 bits, so their last bit is no sign. -/
def signedValue (groups : List Nat) : Int :=
  let value := groupsValue groups
  if groups.length < 5 && 64 ≤ groups.getLastD 0 then (value : Int) - Nat.pow 128 groups.length else value

/-- A signed integer; bits past the 32nd are dropped. -/
def s32 : Reader Int32 := do
  let found ← groups
  return Int32.ofInt (signedValue found)

/-- The text that bytes stand for in UTF-8.  They have just been read, and a fault is reported where they
    start. -/
def utf8 (taken : List UInt8) : Reader String :=
  match Utf8.decode taken with
  | .ok text => return String.ofList text
  | .error _ => fun c => .error (.invalidText (c.position - taken.length)) c

/-- A text: the count of its bytes, then the bytes. -/
def string : Reader String := do
  let length ← u30
  let taken ← bytes length
  utf8 taken

/-- The same reading `n` times. -/
def times {α : Type} : Nat → Reader α → Reader (List α)
  | 0, _ => return []
  | n + 1, item => do
    let a ← item
    let more ← times n item
    return a :: more

/-- A count, and as many items. -/
def counted {α : Type} (item : Reader α) : Reader (List α) := do
  let n ← u30
  times n item

end Reader

end AbcBuild
