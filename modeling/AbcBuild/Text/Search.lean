/-
Module: AbcBuild.Text.Search
Purpose: Cutting a text at a character, and finding one text inside another.  Everything here works on
  lists of characters, so that statements about names, paths and properties files need only list lemmas.
Main exports: splitLast?, splitFirst?, occursIn, joinWith
-/

namespace AbcBuild.Text

/-- Cut at the last occurrence of `mark`; neither side keeps that occurrence. -/
def splitLast? (mark : Char) : List Char → Option (List Char × List Char)
  | [] => none
  | c :: rest =>
    match splitLast? mark rest with
    | some (before, after) => some (c :: before, after)
    | none => if c = mark then some ([], rest) else none

/-- Cut at the first occurrence of `mark`; neither side keeps that occurrence. -/
def splitFirst? (mark : Char) : List Char → Option (List Char × List Char)
  | [] => none
  | c :: rest =>
    if c = mark then some ([], rest)
    else (splitFirst? mark rest).map fun (before, after) => (c :: before, after)

/-- `needle` stands somewhere in the text, as consecutive characters. -/
def occursIn (needle : List Char) : List Char → Bool
  | [] => needle.isEmpty
  | c :: rest => needle.isPrefixOf (c :: rest) || occursIn needle rest

/-- The texts in order, with `separator` between neighbours. -/
def joinWith (separator : String) : List String → String
  | [] => ""
  | [text] => text
  | text :: rest => text ++ separator ++ joinWith separator rest

end AbcBuild.Text
