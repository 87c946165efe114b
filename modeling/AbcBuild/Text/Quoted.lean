/-
Module: AbcBuild.Text.Quoted
Purpose: Texts between double quotes, and the records with named fields that show a value on one line.
Main exports: quote, record, listed, optional
-/
import AbcBuild.Text.Hidden
import AbcBuild.Text.Search

namespace AbcBuild.Text

/-- One character inside double quotes. -/
def quoteChar (c : Char) : List Char :=
  if c = '\x00' then ['\\', '0']
  else if c = '\t' then ['\\', 't']
  else if c = '\r' then ['\\', 'r']
  else if c = '\n' then ['\\', 'n']
  else if c = '"' then ['\\', '"']
  else if c = '\\' then ['\\', '\\']
  else if isHidden c then ['\\', 'u', '\x7b'] ++ Nat.toDigits 16 c.toNat ++ ['\x7d']
  else [c]

/-- A text between double quotes. -/
def quote (text : String) : String :=
  String.ofList ('"' :: text.toList.flatMap quoteChar ++ ['"'])

/-- A value with named fields, each already shown as text. -/
def record (name : String) (fields : List (String × String)) : String :=
  name ++ " \x7b " ++ joinWith ", " (fields.map fun (field, value) => field ++ ": " ++ value) ++ " \x7d"

/-- A list of values, each already shown as text. -/
def listed (items : List String) : String :=
  "[" ++ joinWith ", " items ++ "]"

/-- A value that may be absent. -/
def optional : Option String → String
  | none => "None"
  | some value => "Some(" ++ value ++ ")"

/-- A truth value. -/
def truth (b : Bool) : String :=
  if b then "true" else "false"

end AbcBuild.Text
