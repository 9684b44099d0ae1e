import Interconnect.Diagnostic.Basic
import Interconnect.Text.Json

/-!
# Diagnostics from JSON

A diagnostic is an object with the members `severity`, `code`, `message`, `subject`,
`notes` and `help`, of which only `subject` may be missing or null; other members do not
count.  It may also be written as the array of these six values in this order.  A code is
an object with the members `category` and `number`, or the array of the two.
-/

namespace Interconnect

namespace Category

/-- The category that a JSON value names. -/
def ofJson? : Json → Option Category :=
  Json.asNamed? ofName?

end Category

namespace Code

/-- The code of a category and a number, if the number fits. -/
def ofParts? (category number : Json) : Option Code := do
  let category ← Category.ofJson? category
  let n ← number.asNat?
  if n ≤ maxNumber then some { category, number := UInt16.ofNat n } else none

/-- The code that a JSON value describes. -/
def ofJson? : Json → Option Code
  | .array [category, number] => ofParts? category number
  | .object members => do
    if members.any fun m => m.1.isNone then none
    let member := Json.memberOrNull? members
    ofParts? (← member "category") (← member "number")
  | _ => none

end Code

namespace Diagnostic

/-- The diagnostic that six values describe. -/
def ofParts? (severity code message subject notes help : Json) : Option Diagnostic := do
  return {
    severity := ← severity.asNamed? Severity.ofName?
    code := ← Code.ofJson? code
    message := ← message.asText?
    subject := ← subject.asOptionalText?
    notes := ← notes.asTexts?
    help := ← help.asTexts? }

/-- The diagnostic that a JSON value describes. -/
def ofJson? : Json → Option Diagnostic
  | .array [severity, code, message, subject, notes, help] =>
    ofParts? severity code message subject notes help
  | .object members => do
    if members.any fun m => m.1.isNone then none
    let member := Json.memberOrNull? members
    ofParts? (← member "severity") (← member "code") (← member "message")
      (← member "subject") (← member "notes") (← member "help")
  | _ => none

/-- The diagnostic that a JSON text describes. -/
def parse? (s : String) : Option Diagnostic := do
  ofJson? (← Json.parse? s)

end Diagnostic

end Interconnect
