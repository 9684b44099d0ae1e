import Interconnect.Settings.Basic
import Interconnect.Toml.Document

/-!
# Settings from TOML

The settings are the table `diagnostics` of a document, with the keys `level`, `color`,
`deny` and `allow`.  All of them may be missing, and no other key is known.  The table may
also be written as the array of these values in this order; then the last ones may be
missing, and further ones do not count.  A level is a string, or a table whose only key is
the level and whose value is empty.
-/

namespace Interconnect.Settings

open Toml

/-- The severity that a value names. -/
def level? : Value → Option Severity
  | .string name => Severity.ofName? name
  | .table [(name, v)] => if v.isEmpty then Severity.ofName? name else none
  | _ => none

/-- The flag that a value is. -/
def flag? : Value → Option Bool
  | .boolean b => some b
  | _ => none

/-- The texts that a value lists. -/
def texts? : Value → Option (List String)
  | .array items => items.mapM fun
    | .string s => some s
    | _ => none
  | _ => none

/-- The settings with one key set. -/
def withEntry (s : Settings) : String × Value → Option Settings
  | ("level", v) => (level? v).map fun level => { s with level }
  | ("color", v) => (flag? v).map fun colour => { s with colour }
  | ("deny", v) => (texts? v).map fun deny => { s with deny }
  | ("allow", v) => (texts? v).map fun allow => { s with allow }
  | _ => none

/-- The keys of the settings, in the order of the array form. -/
def keys : List String :=
  ["level", "color", "deny", "allow"]

/-- The settings that a value describes. -/
def ofValue? : Value → Option Settings
  | .table entries => entries.foldlM withEntry {}
  | .array items => (keys.zip items).foldlM withEntry {}
  | _ => none

/-- The settings that the root table of a document describes. -/
def ofRoot? : List (String × Value) → Option Settings
  | [] => some {}
  | [("diagnostics", v)] => ofValue? v
  | _ => none

/-- Reads and checks settings. -/
def parse (s : String) : Except SettingsError Settings :=
  match (Toml.parse? s).bind ofRoot? with
  | none => .error .malformed
  | some settings => (validate settings).map fun _ => settings

/-- Where settings are looked for. -/
inductive Source where
  /-- There is no settings file. -/
  | absent
  /-- There is something that cannot be read as a file. -/
  | unreadable
  | file (bytes : ByteArray)

/-- The settings at a source.  Without a file, they are the default ones. -/
def load : Source → Except SettingsError Settings
  | .absent => .ok {}
  | .unreadable => .error .unreadable
  | .file bytes =>
    match String.fromUTF8? bytes with
    | none => .error .unreadable
    | some s => parse s

end Interconnect.Settings
