import Interconnect.Diagnostic.Code
import Interconnect.Diagnostic.Severity

/-!
# Diagnostics

A diagnostic says what happened to a request.  It has no place in a text to point at,
so it names its `subject` instead: the id of an object or the request itself.
-/

namespace Interconnect

/-- One message about a request or an object. -/
structure Diagnostic where
  severity : Severity
  code : Code
  message : String
  /-- The id of the object, or the request, that the message is about. -/
  subject : Option String
  /-- Explanations, in order. -/
  notes : List String
  /-- Suggestions, in order. -/
  help : List String
  deriving DecidableEq

namespace Diagnostic

/-- An error with a message only. -/
def error (code : Code) (message : String) : Diagnostic :=
  { severity := .error, code, message, subject := none, notes := [], help := [] }

/-- A warning with a message only. -/
def warning (code : Code) (message : String) : Diagnostic :=
  { severity := .warning, code, message, subject := none, notes := [], help := [] }

/-- The same diagnostic about `subject`. -/
def about (d : Diagnostic) (subject : String) : Diagnostic :=
  { d with subject := some subject }

/-- The same diagnostic with one more note. -/
def withNote (d : Diagnostic) (note : String) : Diagnostic :=
  { d with notes := d.notes ++ [note] }

/-- The same diagnostic with one more suggestion. -/
def withHelp (d : Diagnostic) (help : String) : Diagnostic :=
  { d with help := d.help ++ [help] }

end Diagnostic

end Interconnect
