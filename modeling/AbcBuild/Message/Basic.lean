/-
Module: AbcBuild.Message.Basic
Purpose: What a build reports.  Each message has a stable key, named arguments for templates, and an English
  text that stands when no template has the key.
Main exports: Message, Message.key, Message.arguments, Message.text
-/

namespace AbcBuild

/-- A message of the build. -/
inductive Message where
  | noBytecode
  | decodingFailed (reason : String)
  | unreadable (reason : String)
  | styleConflict (name existing declaredBy : String)
  | classRedefined (name source previous : String)
  | duplicateDefinition (name existing : String)
  | unresolvedType (name : String)
  | constantMismatch (name declared actual : String)
  | negativeUint (name : String) (value : Int)
  | unsupportedByPlayer (name : String) (required target : Nat)
  | inheritanceCycle (names : String)
  | unsupportedMime (mime : String)
  | malformedProperties (line : Nat) (reason : String)
  | duplicateBundle (name existing : String)
  | extension (name message : String)
deriving Repr, DecidableEq, Inhabited

namespace Message

/-- The key under which templates are found. -/
def key : Message → String
  | .noBytecode => "abc.NoBytecodeAvailable"
  | .decodingFailed _ => "abc.BytecodeDecodingFailed"
  | .unreadable _ => "source.Unreadable"
  | .styleConflict .. => "styles.StyleConflict"
  | .classRedefined .. => "registry.ClassRedefined"
  | .duplicateDefinition .. => "registry.DuplicateDefinition"
  | .unresolvedType _ => "flow.UnresolvedType"
  | .constantMismatch .. => "constant.TypeMismatch"
  | .negativeUint .. => "constant.NegativeUintLiteral"
  | .unsupportedByPlayer .. => "abc.UnsupportedByTargetPlayer"
  | .inheritanceCycle _ => "scheduler.InheritanceCycle"
  | .unsupportedMime _ => "scheduler.UnsupportedMimeType"
  | .malformedProperties .. => "properties.Malformed"
  | .duplicateBundle .. => "properties.DuplicateBundle"
  | .extension .. => "extension.Message"

/-- The named arguments that a template may mention. -/
def arguments : Message → List (String × String)
  | .noBytecode => []
  | .decodingFailed reason => [("reason", reason)]
  | .unreadable reason => [("reason", reason)]
  | .styleConflict name existing declaredBy =>
    [("name", name), ("existing", existing), ("declaredBy", declaredBy)]
  | .classRedefined name source previous => [("name", name), ("source", source), ("previous", previous)]
  | .duplicateDefinition name existing => [("name", name), ("existing", existing)]
  | .unresolvedType name => [("name", name)]
  | .constantMismatch name declared actual => [("name", name), ("declared", declared), ("actual", actual)]
  | .negativeUint name value => [("name", name), ("value", toString value)]
  | .unsupportedByPlayer name required target =>
    [("name", name), ("required", toString required), ("target", toString target)]
  | .inheritanceCycle names => [("names", names)]
  | .unsupportedMime mime => [("mime", mime)]
  | .malformedProperties line reason => [("line", toString line), ("reason", reason)]
  | .duplicateBundle name existing => [("name", name), ("existing", existing)]
  | .extension name message => [("extension", name), ("message", message)]

/-- The English text. -/
def text : Message → String
  | .noBytecode => "no bytecode is available"
  | .decodingFailed reason => "bytecode decoding failed: " ++ reason
  | .unreadable reason => "unable to read source: " ++ reason
  | .styleConflict name existing declaredBy =>
    "style '" ++ name ++ "' declared by '" ++ declaredBy ++ "' conflicts with the declaration in '"
      ++ existing ++ "'"
  | .classRedefined name source previous =>
    "class '" ++ name ++ "' from '" ++ source ++ "' replaces the definition from '" ++ previous ++ "'"
  | .duplicateDefinition name existing => "'" ++ name ++ "' is already defined in '" ++ existing ++ "'"
  | .unresolvedType name => "type '" ++ name ++ "' was not found"
  | .constantMismatch name declared actual =>
    "constant '" ++ name ++ "' is declared as '" ++ declared ++ "' but initialized with a " ++ actual
      ++ " value"
  | .negativeUint name value => "negative value " ++ toString value ++ " assigned to uint '" ++ name ++ "'"
  | .unsupportedByPlayer name required target =>
    "'" ++ name ++ "' requires Flash Player " ++ toString required ++ " or later; the target is "
      ++ toString target
  | .inheritanceCycle names => "circular inheritance involving " ++ names
  | .unsupportedMime mime => "no compiler is registered for MIME type '" ++ mime ++ "'"
  | .malformedProperties line reason =>
    "malformed properties entry at line " ++ toString line ++ ": " ++ reason
  | .duplicateBundle name existing =>
    "resource bundle '" ++ name ++ "' is already defined by '" ++ existing ++ "'"
  | .extension name message => name ++ ": " ++ message

end Message

end AbcBuild
