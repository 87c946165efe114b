/-
Module: AbcBuild.Bytes.Writer
Purpose: Writing the primitive encodings as bytes.  Integers in groups of seven bits are written with as few
  bytes as possible.
Main exports: Writer.u30, Writer.d64, Writer.string, Writer.counted
-/
import AbcBuild.Number.Double
import AbcBuild.Text.Utf8

namespace AbcBuild.Writer

/-- The `count` low bytes of a number, least significant first. -/
def littleEndian : Nat → Nat → List UInt8
  | 0, _ => []
  | count + 1, n => UInt8.ofNat n :: littleEndian count (n / 256)

def u16 (value : UInt16) : List UInt8 := littleEndian 2 value.toNat

def d64 (value : Double) : List UInt8 := littleEndian 8 value.bits.toNat

/-- Groups of seven bits, least significant first, up to the last that is not zero; at most `more` groups
    follow the first. -/
def groups : Nat → Nat → List UInt8
  | 0, n => [UInt8.ofNat n]
  | more + 1, n =>
    if n < 128 then [UInt8.ofNat n] else UInt8.ofNat (n % 128 + 128) :: groups more (n / 128)

/-- An unsigned integer; five groups hold 32 bits. -/
def u32 (value : UInt32) : List UInt8 := groups 4 value.toNat

/-- An index or a count; bits past the 30th are dropped, so that it is below 2^30. -/
def u30 (value : Nat) : List UInt8 := groups 4 (value % 1073741824)

/-- Groups of seven bits of a signed integer, up to the first whose highest bit tells the sign of what is
    left. -/
def signedGroups : Nat → Int → List UInt8
  | 0, v => [UInt8.ofNat (v % 128).toNat]
  | more + 1, v =>
    if -64 ≤ v && v < 64 then [UInt8.ofNat (v % 128).toNat]
    else UInt8.ofNat ((v % 128).toNat + 128) :: signedGroups more (v / 128)

/-- A signed integer. -/
def s32 (value : Int32) : List UInt8 := signedGroups 4 value.toInt

/-- A text: the count of its bytes, then UTF-8. -/
def string (text : String) : List UInt8 :=
  let bytes := Utf8.encodeString text
  u30 bytes.length ++ bytes

/-- A count, and the items. -/
def counted {α : Type} (item : α → List UInt8) (items : List α) : List UInt8 :=
  u30 items.length ++ items.flatMap item

end AbcBuild.Writer
