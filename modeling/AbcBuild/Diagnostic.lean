/-
Module: AbcBuild.Diagnostic
Purpose: Diagnostics and the log of one build.  The log counts errors and warnings apart from its entries,
  because warnings that are not shown still count.
Main exports: Severity, Diagnostic, Diagnostic.render, Log
-/
import AbcBuild.Message.Catalogue

namespace AbcBuild

/-- How grave a diagnostic is.  An error stops the build at its next gate. -/
inductive Severity where
  | error
  | warning
  | info
deriving Repr, DecidableEq, Inhabited

def Severity.text : Severity → String
  | .error => "error"
  | .warning => "warning"
  | .info => "info"

/-- One reported message.  Line and column count from 1; 0 means unknown. -/
structure Diagnostic where
  severity : Severity
  message : Message
  source : Option String
  line : Nat := 0
  column : Nat := 0
deriving Repr, DecidableEq, Inhabited

namespace Diagnostic

/-- The line of a diagnostic around the text of its message. -/
def frame (d : Diagnostic) (text : String) : String :=
  match d.source with
  | none => d.severity.text ++ ": " ++ text
  | some source =>
    if d.line = 0 then source ++ ": " ++ d.severity.text ++ ": " ++ text
    else source ++ ":" ++ toString d.line ++ ":" ++ toString d.column ++ ": " ++ d.severity.text ++
      ": " ++ text

/-- The line with the English text. -/
def text (d : Diagnostic) : String := d.frame d.message.text

/-- The line in the locale of a catalogue. -/
def render (d : Diagnostic) (catalogue : Catalogue) : String := d.frame (catalogue.render d.message)

end Diagnostic

/-- The diagnostics of one build. -/
structure Log where
  entries : List Diagnostic := []
  errors : Nat := 0
  warnings : Nat := 0
  showWarnings : Bool := true
deriving Repr, DecidableEq, Inhabited

namespace Log

/-- Record a diagnostic.  A warning that is not to be shown is counted only. -/
def add (log : Log) (d : Diagnostic) : Log :=
  match d.severity with
  | .error => { log with entries := log.entries ++ [d], errors := log.errors + 1 }
  | .warning =>
    let counted := { log with warnings := log.warnings + 1 }
    if log.showWarnings then { counted with entries := log.entries ++ [d] } else counted
  | .info => { log with entries := log.entries ++ [d] }

/-- Record a message without a position. -/
def report (log : Log) (severity : Severity) (source : Option String) (message : Message) : Log :=
  log.add { severity := severity, message := message, source := source }

def hasErrors (log : Log) : Bool := log.errors ≠ 0

/-- Forget every entry and both counts. -/
def clear (log : Log) : Log := { log with entries := [], errors := 0, warnings := 0 }

/-- The entries, and the log without them. -/
def take (log : Log) : List Diagnostic × Log := (log.entries, log.clear)

/-- The entries of one severity. -/
def ofSeverity (log : Log) (severity : Severity) : List Diagnostic :=
  log.entries.filter fun d => d.severity = severity

/-- One English line for each entry. -/
def text (log : Log) : String :=
  String.join (log.entries.map fun d => d.text ++ "\n")

/-- One line for each entry, in the locale of a catalogue. -/
def render (log : Log) (catalogue : Catalogue) : String :=
  String.join (log.entries.map fun d => d.render catalogue ++ "\n")

end Log

end AbcBuild
