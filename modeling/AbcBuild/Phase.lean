/-
Module: AbcBuild.Phase
Purpose: The phases that every unit of a build goes through, in this order.
Main exports: Phase, Phase.all, Phase.next?, Phase.before
-/

namespace AbcBuild

/-- A phase of a build. -/
inductive Phase where
  | parse1
  | parse2
  | analyze1
  | analyze2
  | analyze3
  | analyze4
  | generate
  | postprocess
deriving Repr, DecidableEq, Inhabited

namespace Phase

/-- All phases in order. -/
def all : List Phase :=
  [.parse1, .parse2, .analyze1, .analyze2, .analyze3, .analyze4, .generate, .postprocess]

/-- The phases after the first. -/
def later : List Phase := all.drop 1

def next? : Phase → Option Phase
  | .parse1 => some .parse2
  | .parse2 => some .analyze1
  | .analyze1 => some .analyze2
  | .analyze2 => some .analyze3
  | .analyze3 => some .analyze4
  | .analyze4 => some .generate
  | .generate => some .postprocess
  | .postprocess => none

/-- The place of a phase. -/
def rank : Phase → Nat
  | .parse1 => 0
  | .parse2 => 1
  | .analyze1 => 2
  | .analyze2 => 3
  | .analyze3 => 4
  | .analyze4 => 5
  | .generate => 6
  | .postprocess => 7

/-- The first phase comes before the second. -/
def before (a b : Phase) : Bool := a.rank < b.rank

def text : Phase → String
  | .parse1 => "parse1"
  | .parse2 => "parse2"
  | .analyze1 => "analyze1"
  | .analyze2 => "analyze2"
  | .analyze3 => "analyze3"
  | .analyze4 => "analyze4"
  | .generate => "generate"
  | .postprocess => "postprocess"

/-- The phase as a capitalized word. -/
def label (p : Phase) : String :=
  match p.text.toList with
  | [] => ""
  | c :: rest => String.ofList (c.toUpper :: rest)

/-- The phase of a text. -/
def ofText? (text : String) : Option Phase := all.find? fun p => p.text = text

end Phase

end AbcBuild
