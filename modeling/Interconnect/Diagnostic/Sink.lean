import Interconnect.Diagnostic.Policy

/-!
# Sinks

A sink gathers the diagnostics that its policy keeps, in the order they came.  Draining
empties it; the count of errors goes on counting.
-/

namespace Interconnect

/-- The diagnostics gathered so far. -/
structure Sink where
  policy : Policy
  /-- What was kept since the last drain, oldest first. -/
  kept : List Diagnostic
  /-- How many errors were ever kept. -/
  errorCount : Nat
  deriving DecidableEq

namespace Sink

/-- A sink that has seen nothing. -/
def empty (policy : Policy) : Sink :=
  { policy, kept := [], errorCount := 0 }

/-- Some error was kept. -/
def hasErrors (s : Sink) : Bool :=
  s.errorCount > 0

/-- Keeps what the policy makes of `d`. -/
def emit (s : Sink) (d : Diagnostic) : Sink :=
  match s.policy.apply d with
  | none => s
  | some d =>
    { s with
      kept := s.kept ++ [d]
      errorCount := if d.severity = .error then s.errorCount + 1 else s.errorCount }

/-- Hands over what was kept and forgets it. -/
def drain (s : Sink) : List Diagnostic × Sink :=
  (s.kept, { s with kept := [] })

@[simp] theorem policy_emit (s : Sink) (d : Diagnostic) : (s.emit d).policy = s.policy := by
  unfold emit
  split <;> rfl

@[simp] theorem kept_emit (s : Sink) (d : Diagnostic) :
    (s.emit d).kept = s.kept ++ (s.policy.apply d).toList := by
  unfold emit
  split <;> simp [*]

end Sink

end Interconnect
