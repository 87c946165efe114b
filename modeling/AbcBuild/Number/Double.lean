/-
Module: AbcBuild.Number.Double
Purpose: Double-precision numbers as their 64 bits.  Two doubles are equal when their bits are, so the two
  zeros differ and every NaN keeps its payload.
Main exports: Double, Double.mantissa, Double.exponent, Double.ofInt
-/

namespace AbcBuild

/-- A double-precision number, given by its bits. -/
structure Double where
  bits : UInt64
deriving Repr, DecidableEq, Inhabited

namespace Double

/-- The bit that a normal number has before its 52 stored ones: 2^52. -/
def leadingBit : Nat := 4503599627370496

/-- The bit of the sign: 2^63. -/
def signBit : Nat := 9223372036854775808

/-- The 52 low bits. -/
def fraction (d : Double) : Nat := d.bits.toNat % leadingBit

/-- The eleven exponent bits as stored. -/
def biased (d : Double) : Nat := d.bits.toNat / leadingBit % 2048

/-- The sign bit is set. -/
def negative (d : Double) : Bool := signBit ≤ d.bits.toNat

def isNaN (d : Double) : Bool := d.biased = 2047 && d.fraction ≠ 0

def isInfinite (d : Double) : Bool := d.biased = 2047 && d.fraction = 0

def isZero (d : Double) : Bool := d.biased = 0 && d.fraction = 0

/-- A finite double is `mantissa * 2 ^ exponent` up to its sign. -/
def mantissa (d : Double) : Nat :=
  if d.biased = 0 then d.fraction else leadingBit + d.fraction

/-- The power of two of a finite double. -/
def exponent (d : Double) : Int :=
  if d.biased = 0 then -1074 else (d.biased : Int) - 1075

/-- The double equal to a natural number below 2^53. -/
def ofNat (n : Nat) : Double :=
  if n = 0 then ⟨0⟩
  else
    let top := Nat.log2 n
    ⟨UInt64.ofNat ((top + 1023) * leadingBit + (n * Nat.pow 2 (52 - top) - leadingBit))⟩

/-- The double equal to an integer of magnitude below 2^53. -/
def ofInt (v : Int) : Double :=
  if v < 0 then ⟨UInt64.ofNat signBit ||| (ofNat v.natAbs).bits⟩ else ofNat v.toNat

end Double

end AbcBuild
