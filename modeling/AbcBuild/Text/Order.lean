/-
Module: AbcBuild.Text.Order
Purpose: The order of texts by code points, a shorter text before its continuations, and sorting by it.
Main exports: Text.sorted, Text.sortedByKey
-/

namespace AbcBuild.Text

/-- The texts in order. -/
def sorted (texts : List String) : List String := texts.mergeSort (· ≤ ·)

/-- Entries in the order of their keys. -/
def sortedByKey {α : Type} (entries : List (String × α)) : List (String × α) :=
  entries.mergeSort fun a b => a.1 ≤ b.1

end AbcBuild.Text
