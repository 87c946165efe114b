/-
Module: AbcBuild.Config
Purpose: The settings of a build.
Main exports: Config
-/
import AbcBuild.Diagnostic

namespace AbcBuild

/-- Settings of a build. -/
structure Config where
  /-- Constant initializers are checked against their declared types. -/
  strict : Bool := true
  /-- Locale of messages, and of bundles whose directory names none. -/
  locale : String := defaultLocale
  showWarnings : Bool := true
  styleSeverity : Severity := .warning
  /-- Major version of the player that the result is meant for. -/
  targetPlayer : Nat := 10
deriving Repr, DecidableEq, Inhabited

end AbcBuild
