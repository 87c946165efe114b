/-
Module: AbcBuild.Message.Catalogue
Purpose: Message templates per locale.  A template mentions arguments as a dollar sign and a name in braces;
  the template of the chosen locale is taken, else the English one, else the message's own text.
Main exports: Template.expand, Catalogue, Catalogue.ofLocale, Catalogue.add, Catalogue.render
-/
import AbcBuild.Message.Basic
import AbcBuild.Table

namespace AbcBuild

namespace Template

/-- What stands for a placeholder: the value of the first argument of that name, or the placeholder
    itself. -/
def expandName (arguments : List (String × String)) (name : List Char) : List Char :=
  match arguments.find? (fun argument => argument.1 = String.ofList name) with
  | some (_, value) => value.toList
  | none => '$' :: '\x7b' :: name ++ ['\x7d']

/-- Read a template from left to right.  The first argument is the part of a placeholder's name read so far,
    last character first, or `none` outside placeholders.  A placeholder that is never closed stays as it
    is. -/
def expandFrom (arguments : List (String × String)) : Option (List Char) → List Char → List Char
  | none, [] => []
  | none, '$' :: '\x7b' :: rest => expandFrom arguments (some []) rest
  | none, c :: rest => c :: expandFrom arguments none rest
  | some name, [] => '$' :: '\x7b' :: name.reverse
  | some name, '\x7d' :: rest => expandName arguments name.reverse ++ expandFrom arguments none rest
  | some name, c :: rest => expandFrom arguments (some (c :: name)) rest

/-- Put the arguments into a template, in one pass: an inserted value is not read again. -/
def expand (template : String) (arguments : List (String × String)) : String :=
  String.ofList (expandFrom arguments none template.toList)

end Template

/-- The locale that every catalogue has templates for. -/
def defaultLocale : String := "en_US"

/-- The English templates. -/
def englishTemplates : List (String × String) :=
  [("abc.NoBytecodeAvailable", "No bytecode is available."),
   ("abc.BytecodeDecodingFailed", "Bytecode decoding failed: $\x7breason\x7d"),
   ("source.Unreadable", "Unable to read source: $\x7breason\x7d"),
   ("styles.StyleConflict",
    "The style '$\x7bname\x7d' declared by '$\x7bdeclaredBy\x7d' conflicts with the declaration in '$\x7bexisting\x7d'."),
   ("registry.ClassRedefined",
    "Class '$\x7bname\x7d' from '$\x7bsource\x7d' replaces the definition from '$\x7bprevious\x7d'."),
   ("registry.DuplicateDefinition", "'$\x7bname\x7d' is already defined in '$\x7bexisting\x7d'."),
   ("flow.UnresolvedType", "Type was not found or was not a compile-time constant: $\x7bname\x7d."),
   ("constant.TypeMismatch",
    "Constant '$\x7bname\x7d' is declared as '$\x7bdeclared\x7d' but initialized with a $\x7bactual\x7d value."),
   ("constant.NegativeUintLiteral",
    "Negative value $\x7bvalue\x7d will become a large positive number when assigned to uint '$\x7bname\x7d'."),
   ("abc.UnsupportedByTargetPlayer",
    "'$\x7bname\x7d' requires Flash Player $\x7brequired\x7d or later, but the target player is $\x7btarget\x7d."),
   ("scheduler.InheritanceCycle", "Circular inheritance involving $\x7bnames\x7d."),
   ("scheduler.UnsupportedMimeType", "No compiler is registered for MIME type '$\x7bmime\x7d'."),
   ("properties.Malformed", "Malformed properties entry at line $\x7bline\x7d: $\x7breason\x7d"),
   ("properties.DuplicateBundle",
    "Resource bundle '$\x7bname\x7d' is already defined by '$\x7bexisting\x7d'."),
   ("extension.Message", "$\x7bextension\x7d: $\x7bmessage\x7d")]

/-- Templates by locale and key, with the locale that messages are wanted in. -/
structure Catalogue where
  locale : String
  templates : Table (String × String) String
deriving Repr, DecidableEq, Inhabited

namespace Catalogue

/-- The English templates only, wanted in the given locale. -/
def ofLocale (locale : String) : Catalogue :=
  { locale := locale
    templates := ⟨englishTemplates.map fun (key, template) => ((defaultLocale, key), template)⟩ }

/-- Add a template, or replace the one of that locale and key. -/
def add (c : Catalogue) (locale key template : String) : Catalogue :=
  { c with templates := c.templates.insert (locale, key) template }

/-- The template of the wanted locale, else the English one. -/
def template? (c : Catalogue) (key : String) : Option String :=
  (c.templates.get? (c.locale, key)).or (c.templates.get? (defaultLocale, key))

/-- The text of a message in the wanted locale. -/
def render (c : Catalogue) (message : Message) : String :=
  match c.template? message.key with
  | some template => Template.expand template message.arguments
  | none => message.text

end Catalogue

end AbcBuild
