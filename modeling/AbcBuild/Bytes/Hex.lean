/-
Module: AbcBuild.Bytes.Hex
Purpose: Bytes as pairs of hexadecimal digits, in lower case.
Main exports: Hex.byteText, Hex.text, Hex.bytes
-/

namespace AbcBuild.Hex

/-- A byte in two digits. -/
def byteText (b : UInt8) : String :=
  String.ofList [Nat.digitChar (b.toNat / 16), Nat.digitChar (b.toNat % 16)]

/-- All bytes, one after the other. -/
def text (bytes : List UInt8) : String := String.join (bytes.map byteText)

/-- The value of a digit. -/
def digit (c : Char) : Nat := if c.isDigit then c.toNat - '0'.toNat else c.toNat - 'a'.toNat + 10

/-- The bytes that pairs of digits write. -/
def ofDigits : List Char → List UInt8
  | high :: low :: rest => UInt8.ofNat (16 * digit high + digit low) :: ofDigits rest
  | _ => []

/-- The bytes that a text writes. -/
def bytes (text : String) : List UInt8 := ofDigits text.toList

end AbcBuild.Hex
