/-
Module: AbcBuild.Cli.Arguments
Purpose: The arguments of the command line.  An option stands once at most; a value follows its option, or is
  attached to it; after `--` everything is a file.
Main exports: Cli.Options, Cli.Options.parse?, Cli.Options.config
-/
import AbcBuild.Config
import AbcBuild.Text.Search

namespace AbcBuild.Cli

/-- What the command line asks for.  What is not given is absent. -/
structure Options where
  files : List String := []
  noStrict : Bool := false
  locale : Option String := none
  noWarnings : Bool := false
  strictStyles : Bool := false
  targetPlayer : Option Nat := none
  listClasses : Bool := false
  output : Option String := none
deriving Repr, DecidableEq, Inhabited

namespace Options

/-- The number that digits write. -/
def number? (digits : List Char) : Option Nat :=
  if digits.isEmpty || !digits.all Char.isDigit then none
  else some (digits.foldl (fun n d => 10 * n + (d.toNat - '0'.toNat)) 0)

/-- A version is a number of 32 bits, with a sign if need be. -/
def version? (text : List Char) : Option Nat :=
  match text with
  | '+' :: digits => (number? digits).filter (· < 4294967296)
  | '-' :: digits => (number? digits).filter (· = 0)
  | digits => (number? digits).filter (· < 4294967296)

/-- Switch an option on that has no value; `none` if there is no such option or it is on already. -/
def switch? (o : Options) (name : String) : Option Options :=
  if name = "no-strict" then if o.noStrict then none else some { o with noStrict := true }
  else if name = "no-warnings" then if o.noWarnings then none else some { o with noWarnings := true }
  else if name = "strict-styles" then if o.strictStyles then none else some { o with strictStyles := true }
  else if name = "list-classes" then if o.listClasses then none else some { o with listClasses := true }
  else none

/-- The option wants a value. -/
def wantsValue (name : String) : Bool := name = "locale" || name = "target-player" || name = "output"

/-- Give an option its value; `none` if it has one already or the value is bad. -/
def assign? (o : Options) (name : String) (value : List Char) : Option Options :=
  if name = "locale" then
    if o.locale.isSome then none else some { o with locale := some (String.ofList value) }
  else if name = "target-player" then
    if o.targetPlayer.isSome then none
    else (version? value).map fun v => { o with targetPlayer := some v }
  else if name = "output" then
    if o.output.isSome || value.isEmpty then none else some { o with output := some (String.ofList value) }
  else none

/-- Add a file; an empty name is bad. -/
def addFile? (o : Options) (name : List Char) : Option Options :=
  if name.isEmpty then none else some { o with files := o.files ++ [String.ofList name] }

def addFiles? (o : Options) : List String → Option Options
  | [] => some o
  | name :: rest => (o.addFile? name.toList).bind fun o => o.addFiles? rest

/-- A following argument can be a value: it does not look like an option. -/
def isPlain (argument : List Char) : Bool := argument.head? ≠ some '-' || argument = ['-']

/-- What an argument is. -/
inductive Shape where
  /-- The `--` that ends the options. -/
  | stop
  /-- An option, with the value attached to it. -/
  | option (name : String) (value : Option (List Char))
  | file (name : List Char)
  | unknown
deriving Repr, DecidableEq, Inhabited

/-- The shape of an option with a long name. -/
def longShape (text : List Char) : Shape :=
  match Text.splitFirst? '=' text with
  | some (name, value) => .option (String.ofList name) (some value)
  | none => .option (String.ofList text) none

/-- The shape of an argument. -/
def shape (argument : List Char) : Shape :=
  match argument with
  | ['-', '-'] => .stop
  | '-' :: '-' :: long => longShape long
  | ['-', 'o'] => .option "output" none
  | '-' :: 'o' :: '=' :: value => .option "output" (some value)
  | '-' :: 'o' :: value => .option "output" (some value)
  | ['-'] => .file argument
  | '-' :: _ => .unknown
  | _ => .file argument

/-- Take in arguments one after the other. -/
def addAll? (o : Options) : List String → Option Options
  | [] => some o
  | argument :: rest =>
    match shape argument.toList with
    | .stop => o.addFiles? rest
    | .file name => (o.addFile? name).bind fun o => o.addAll? rest
    | .option name (some value) => (o.assign? name value).bind fun o => o.addAll? rest
    | .option name none =>
      if wantsValue name then
        match rest with
        | [] => none
        | value :: rest =>
          if isPlain value.toList then (o.assign? name value.toList).bind fun o => o.addAll? rest
          else none
      else (o.switch? name).bind fun o => o.addAll? rest
    | .unknown => none

/-- The options that arguments stand for; `none` if they are bad.  There is at least one file. -/
def parse? (arguments : List String) : Option Options :=
  (addAll? {} arguments).filter fun o => !o.files.isEmpty

/-- The settings of the build. -/
def config (o : Options) : Config :=
  let standard : Config := {}
  { strict := !o.noStrict
    locale := o.locale.getD standard.locale
    showWarnings := !o.noWarnings
    styleSeverity := if o.strictStyles then .error else .warning
    targetPlayer := o.targetPlayer.getD standard.targetPlayer }

end Options

end AbcBuild.Cli
