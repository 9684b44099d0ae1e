import Interconnect.Diagnostic.Rendering
import Interconnect.Diagnostic.Sink
import Interconnect.Session.Command

/-!
# Sessions

A session holds a store, the sink for its diagnostics, the renderer for them, and a log.
What is made known while the store works goes to the log, and diagnostics go through the
sink; a diagnostic that the sink drops is not logged either.
-/

namespace Interconnect

/-- One line of the log. -/
structure LogEntry where
  level : LogLevel
  message : String
  fields : List (String × String)
  /-- The request during which it was written. -/
  span : Option String
  deriving DecidableEq

namespace LogEntry

/-- The entry for an event. -/
def ofEvent (span : Option String) (e : Event) : LogEntry :=
  { level := e.level, message := e.message, fields := e.fields, span }

/-- The entry for a diagnostic that was kept. -/
def ofDiagnostic (span : Option String) (d : Diagnostic) : LogEntry :=
  { level := LogLevel.ofSeverity d.severity
    message := d.message
    fields := [("code", d.code.text), ("subject", d.subject.getD "-")]
    span }

end LogEntry

/-- A store at work. -/
structure Session where
  store : Store
  sink : Sink
  renderer : Renderer
  /-- What was logged since the log was last read, oldest first. -/
  log : List LogEntry

namespace Session

/-- An empty store and a sink that keeps everything. -/
def start : Session :=
  { store := .empty, sink := .empty .permissive, renderer := { colour := false }, log := [] }

/-- Starts over with another sink and renderer. -/
def configure (s : Session) (policy : Policy) (renderer : Renderer) : Session :=
  { s with sink := .empty policy, renderer }

/-- Passes a diagnostic through the sink. -/
def emit (s : Session) (span : Option String) (d : Diagnostic) : Session :=
  { s with
    sink := s.sink.emit d
    log := s.log ++ ((s.sink.policy.apply d).map (LogEntry.ofDiagnostic span)).toList }

/-- Takes note of an event or a diagnostic. -/
def notice (span : Option String) (s : Session) : Notice → Session
  | .event e => { s with log := s.log ++ [.ofEvent span e] }
  | .diagnostic d => s.emit span d

/-- Takes over what an operation left behind. -/
def absorb {ε α : Type} (s : Session) (span : Option String) (o : Outcome ε α) :
    Session × Except ε α :=
  (o.notices.foldl (notice span) { s with store := o.store }, o.result)

/-- The span of a command: only requests have one. -/
def spanOf : Command → Option String
  | .request r => some r.label
  | _ => none

/-- Carries out a command. -/
def exec (s : Session) (c : Command) : Session × Except Failure Answer :=
  s.absorb (spanOf c) (s.store.exec c)

/-- Hands over the diagnostics that the sink has kept. -/
def takeDiagnostics (s : Session) : List Diagnostic × Session :=
  let (ds, sink) := s.sink.drain
  (ds, { s with sink })

/-- Hands over the log. -/
def takeLog (s : Session) : List LogEntry × Session :=
  (s.log, { s with log := [] })

/-- The diagnostics that the sink holds, as text. -/
def render (s : Session) : String :=
  s.renderer.renderAll s.sink.kept

end Session

end Interconnect
