/-
Module: AbcBuild.Properties
Purpose: Properties files: entries of a key and a value, one to a line.  An equals sign, a colon or blanks
  divide them, `#` and `!` start comments, and a backslash at the end of a line continues it.
Main exports: Properties.logicalLines, Properties.splitEntry, Properties.unescape, Properties.parse,
  PropertiesFile
-/
import AbcBuild.Name.Basic
import AbcBuild.Table
import AbcBuild.Text.Blank
import AbcBuild.Text.Lines

namespace AbcBuild

namespace Properties

/-- Why an entry cannot be read. -/
inductive Fault where
  /-- What follows a `\u` is no four hexadecimal digits. -/
  | badEscape (digits : List Char)
  /-- The digits stand for no character. -/
  | badCodePoint (code : Nat)
deriving Repr, DecidableEq, Inhabited

/-- A number in upper-case hexadecimal digits, at least four of them. -/
def codePointText (code : Nat) : List Char :=
  let digits := (Nat.toDigits 16 code).map Char.toUpper
  List.replicate (4 - digits.length) '0' ++ digits

def Fault.message : Fault → String
  | .badEscape digits => "invalid unicode escape '\\u" ++ String.ofList digits ++ "'"
  | .badCodePoint code => "invalid code point U+" ++ String.ofList (codePointText code)

/-- A text, given backwards, ends in an odd number of backslashes, so the next line belongs to it. -/
def isContinued (backwards : List Char) : Bool :=
  (backwards.takeWhile (· = '\\')).length % 2 = 1

/-- Nothing but blanks, or a comment. -/
def isIgnored (trimmed : List Char) : Bool :=
  match trimmed with
  | [] => true
  | c :: _ => c = '#' || c = '!'

/-- The entries of a file, each with the number of its first line.  `number` is that of the next line;
    `opened` is an entry that goes on there, backwards and without its last backslash. -/
def logicalLines (number : Nat) (opened : Option (Nat × List Char)) :
    List (List Char) → List (Nat × List Char)
  | [] => opened.toList.map fun (first, text) => (first, text.reverse)
  | line :: rest =>
    let trimmed := Text.trimStart line
    if opened.isNone && isIgnored trimmed then logicalLines (number + 1) none rest
    else
      let (first, before) := opened.getD (number, [])
      let joined := trimmed.reverse ++ before
      if isContinued joined then logicalLines (number + 1) (some (first, joined.tail)) rest
      else (first, joined.reverse) :: logicalLines (number + 1) none rest

/-- The blanks that divide a key from its value. -/
def isGap (c : Char) : Bool := c = ' ' || c = '\t' || c = '\x0c'

/-- The key as written, up to the first separator that no backslash stands before, and the rest. -/
def splitKey : List Char → List Char × List Char
  | [] => ([], [])
  | ['\\'] => (['\\'], [])
  | '\\' :: c :: rest =>
    let (key, value) := splitKey rest
    ('\\' :: c :: key, value)
  | c :: rest =>
    if c = '=' || c = ':' || isGap c then ([], c :: rest)
    else
      let (key, value) := splitKey rest
      (c :: key, value)

/-- The value after the key: gaps, at most one equals sign or colon, and gaps again are dropped. -/
def dropSeparator (text : List Char) : List Char :=
  match text.dropWhile isGap with
  | [] => []
  | c :: rest => if c = '=' || c = ':' then rest.dropWhile isGap else c :: rest

/-- The key and the value of an entry, both as written. -/
def splitEntry (entry : List Char) : List Char × List Char :=
  let (key, rest) := splitKey entry
  (key, dropSeparator rest)

/-- The value of a hexadecimal digit. -/
def hexDigit? (c : Char) : Option Nat :=
  if '0' ≤ c && c ≤ '9' then some (c.toNat - '0'.toNat)
  else if 'a' ≤ c && c ≤ 'f' then some (c.toNat - 'a'.toNat + 10)
  else if 'A' ≤ c && c ≤ 'F' then some (c.toNat - 'A'.toNat + 10)
  else none

/-- The number of a list of hexadecimal digits, after `value`. -/
def hexValue? : Nat → List Char → Option Nat
  | value, [] => some value
  | value, c :: rest =>
    match hexDigit? c with
    | some digit => hexValue? (16 * value + digit) rest
    | none => none

/-- The number that four characters stand for.  The first may be a plus sign. -/
def code? (a b c d : Char) : Option Nat :=
  if a = '+' then hexValue? 0 [b, c, d] else hexValue? 0 [a, b, c, d]

/-- The character that four characters after `\u` stand for. -/
def escaped (a b c d : Char) : Except Fault Char :=
  match code? a b c d with
  | none => .error (.badEscape [a, b, c, d])
  | some code => if Nat.isValidChar code then .ok (Char.ofNat code) else .error (.badCodePoint code)

/-- The character that an escape of one letter stands for. -/
def letterEscape (c : Char) : Char :=
  if c = 't' then '\t'
  else if c = 'n' then '\n'
  else if c = 'r' then '\r'
  else if c = 'f' then '\x0c'
  else c

/-- Replace the escapes of a key or a value.  A backslash at the very end is dropped. -/
def unescape : List Char → Except Fault (List Char)
  | [] => .ok []
  | ['\\'] => .ok []
  | '\\' :: 'u' :: a :: b :: c :: d :: rest =>
    match escaped a b c d with
    | .ok ch => (unescape rest).map (ch :: ·)
    | .error e => .error e
  | '\\' :: 'u' :: digits => .error (.badEscape digits)
  | '\\' :: c :: rest => (unescape rest).map (letterEscape c :: ·)
  | c :: rest => (unescape rest).map (c :: ·)

/-- A fault, and the line on which its entry starts. -/
structure ParseError where
  line : Nat
  fault : Fault
deriving Repr, DecidableEq, Inhabited

/-- The key and the value of an entry. -/
def readEntry (entry : List Char) : Except Fault (String × String) :=
  let (key, value) := splitEntry entry
  match unescape key with
  | .error e => .error e
  | .ok key =>
    match unescape value with
    | .error e => .error e
    | .ok value => .ok (String.ofList key, String.ofList value)

/-- Put entries into a table one after the other, up to the first that cannot be read. -/
def readEntries (table : Table String String) :
    List (Nat × List Char) → Except ParseError (Table String String)
  | [] => .ok table
  | (line, entry) :: rest =>
    match readEntry entry with
    | .ok (key, value) => readEntries (table.insert key value) rest
    | .error fault => .error ⟨line, fault⟩

/-- The entries of a file.  A repeated key keeps its place and takes the new value. -/
def parse (text : List Char) : Except ParseError (Table String String) :=
  readEntries .empty (logicalLines 1 none (Text.lines text))

end Properties

/-- A parsed properties file. -/
structure PropertiesFile where
  locale : String
  bundle : String
  entries : Table String String
deriving Repr, DecidableEq, Inhabited

namespace PropertiesFile

/-- The name of a bundle in the registry, apart for each locale. -/
def keyOf (locale bundle : String) : String := locale ++ "$" ++ bundle

def bundleKey (f : PropertiesFile) : String := keyOf f.locale f.bundle

/-- The name of the class that a bundle becomes. -/
def className (f : PropertiesFile) : QName := QName.unnamed (f.bundleKey ++ "_properties")

end PropertiesFile

end AbcBuild
