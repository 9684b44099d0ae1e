import Interconnect.Diagnostic.Policy
import Interconnect.Diagnostic.Rendering

/-!
# Settings

Which diagnostics are kept and how they are written, as a user sets it.  Codes are kept as
they were written; `validate` refuses a list that holds anything but codes, and a code
that is both denied and allowed.
-/

namespace Interconnect

/-- The settings for diagnostics. -/
structure Settings where
  /-- The least severity that is kept. -/
  level : Severity := .help
  /-- Diagnostics are written in colour. -/
  colour : Bool := false
  /-- Codes raised to errors. -/
  deny : List String := []
  /-- Codes dropped. -/
  allow : List String := []
  deriving DecidableEq

/-- Why there are no settings. -/
inductive SettingsError where
  /-- The settings cannot be read. -/
  | unreadable
  /-- The text is not a settings document. -/
  | malformed
  /-- A listed text is no code. -/
  | invalidCode (written : String)
  /-- A code is denied and allowed. -/
  | contradictory (written : String)
  deriving DecidableEq

namespace Settings

/-- The policy that the settings describe.  A text that is no code is skipped. -/
def policy (s : Settings) : Policy :=
  { denied := s.deny.filterMap Code.parse?
    allowed := s.allow.filterMap Code.parse?
    threshold := s.level }

/-- The renderer that the settings describe. -/
def renderer (s : Settings) : Renderer :=
  { colour := s.colour }

/-- The codes of a list, or the first text in it that is no code. -/
def parseCodes : List String → Except SettingsError (List Code)
  | [] => .ok []
  | written :: rest =>
    match Code.parse? written with
    | none => .error (.invalidCode written)
    | some code => (parseCodes rest).map (code :: ·)

/-- Accepts a list of allowed codes if all of them are codes and none is denied. -/
def checkAllowed (denied : List Code) : List String → Except SettingsError Unit
  | [] => .ok ()
  | written :: rest =>
    match Code.parse? written with
    | none => .error (.invalidCode written)
    | some code =>
      if denied.contains code then .error (.contradictory written)
      else checkAllowed denied rest

/-- Accepts settings that list codes only, none of them both denied and allowed. -/
def validate (s : Settings) : Except SettingsError Unit :=
  match parseCodes s.deny with
  | .error e => .error e
  | .ok denied => checkAllowed denied s.allow

end Settings

namespace SettingsError

/-- The text of an error that is about the listed codes. -/
def message? : SettingsError → Option String
  | unreadable | malformed => none
  | invalidCode written => some ("validation error: " ++ Code.invalidMessage written)
  | contradictory written =>
    some s!"validation error: '{written}' is both denied and allowed"

end SettingsError

end Interconnect
