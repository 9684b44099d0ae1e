import Interconnect.Diagnostic.Basic

/-!
# Rendering for a terminal

A diagnostic is written on a line of its own, followed by one line for its subject, each
note and each suggestion:

    warning[W300]: conflicting directions
      --> port::core.data_b
       = note: while resolving connection data
       = help: name the hop

In colour, only the severity word is marked.
-/

namespace Interconnect

/-- How diagnostics are written. -/
structure Renderer where
  /-- Marks the severity with terminal colours. -/
  colour : Bool
  deriving DecidableEq

namespace Renderer

/-- The terminal's number for the colour of a severity. -/
def colourOf : Severity → String
  | .error => "1;31"
  | .warning => "1;33"
  | .note => "1;36"
  | .help => "1;32"

/-- The word that opens a diagnostic. -/
def heading (r : Renderer) (s : Severity) : String :=
  if r.colour then "\x1b[" ++ colourOf s ++ "m" ++ s.name ++ "\x1b[0m" else s.name

/-- The lines of one diagnostic, without their line ends. -/
def lines (r : Renderer) (d : Diagnostic) : List String :=
  (r.heading d.severity ++ "[" ++ d.code.text ++ "]: " ++ d.message)
    :: (d.subject.toList.map ("  --> " ++ ·)
      ++ d.notes.map ("   = note: " ++ ·)
      ++ d.help.map ("   = help: " ++ ·))

/-- The text of one diagnostic. -/
def render (r : Renderer) (d : Diagnostic) : String :=
  String.join ((r.lines d).map (· ++ "\n"))

/-- The text of several diagnostics, one after the other. -/
def renderAll (r : Renderer) (ds : List Diagnostic) : String :=
  String.join (ds.map r.render)

end Renderer

end Interconnect
