/-
Module: AbcBuild.Text.Utf8
Purpose: Reading and writing UTF-8.  A failed reading tells where the first ill-formed sequence starts and
  how many of its bytes belong together, or that the input ends inside a sequence.
Main exports: Utf8.Fault, Utf8.decode, Utf8.encode, Utf8.encodeString
-/

namespace AbcBuild.Utf8

/-- Why bytes are no UTF-8 text. -/
inductive Fault where
  /-- `length` bytes from `index` on start no character. -/
  | invalid (length index : Nat)
  /-- The input ends inside the character that starts at `index`. -/
  | incomplete (index : Nat)
deriving Repr, DecidableEq

def Fault.message : Fault → String
  | .invalid length index =>
    "invalid utf-8 sequence of " ++ toString length ++ " bytes from index " ++ toString index
  | .incomplete index => "incomplete utf-8 byte sequence from index " ++ toString index

/-- A byte that continues a character. -/
def isContinuation (b : UInt8) : Bool :=
  0x80 ≤ b.toNat && b.toNat ≤ 0xbf

/-- The second byte of a three-byte character: the first byte decides which continuations are left once
    overlong forms and surrogates are taken out. -/
def secondOfThree (first second : UInt8) : Bool :=
  if first.toNat = 0xe0 then 0xa0 ≤ second.toNat && second.toNat ≤ 0xbf
  else if first.toNat = 0xed then 0x80 ≤ second.toNat && second.toNat ≤ 0x9f
  else isContinuation second

/-- The second byte of a four-byte character: overlong forms and code points past U+10FFFF are taken out. -/
def secondOfFour (first second : UInt8) : Bool :=
  if first.toNat = 0xf0 then 0x90 ≤ second.toNat && second.toNat ≤ 0xbf
  else if first.toNat = 0xf4 then 0x80 ≤ second.toNat && second.toNat ≤ 0x8f
  else isContinuation second

/-- What the bytes after the first byte of a character have to be. -/
def expected (first : UInt8) : List (UInt8 → Bool) :=
  let n := first.toNat
  if 0xc2 ≤ n && n ≤ 0xdf then [isContinuation]
  else if 0xe0 ≤ n && n ≤ 0xef then [secondOfThree first, isContinuation]
  else if 0xf0 ≤ n && n ≤ 0xf4 then [secondOfFour first, isContinuation, isContinuation]
  else []

/-- Why the bytes from `index` on start no character, once `length` of them are as expected. -/
def fault (index length : Nat) : List (UInt8 → Bool) → List UInt8 → Fault
  | [], _ => .invalid length index
  | _ :: _, [] => .incomplete index
  | fits :: others, b :: rest =>
    if fits b then fault index (length + 1) others rest else .invalid length index

/-- The character that the bytes start with. -/
def first? (bytes : List UInt8) : Option Char := (bytes.take 4).toByteArray.utf8DecodeChar? 0

/-- The characters of `bytes`, whose first byte stands at `index` of the whole input.  The first `inside`
    bytes belong to the character before. -/
def decodeFrom (index : Nat) : Nat → List UInt8 → Except Fault (List Char)
  | _, [] => .ok []
  | inside + 1, _ :: rest => decodeFrom (index + 1) inside rest
  | 0, b :: rest =>
    match first? (b :: rest) with
    | some c => (decodeFrom (index + 1) (c.utf8Size - 1) rest).map (c :: ·)
    | none => .error (fault index 1 (expected b) rest)

/-- The characters of a UTF-8 text, or its first fault. -/
def decode (bytes : List UInt8) : Except Fault (List Char) :=
  decodeFrom 0 0 bytes

/-- The bytes of a text. -/
def encode (text : List Char) : List UInt8 :=
  text.flatMap String.utf8EncodeChar

/-- The bytes of a string. -/
def encodeString (text : String) : List UInt8 :=
  encode text.toList

end AbcBuild.Utf8
