import Interconnect.Diagnostic.Basic

/-!
# Policies

A policy decides which diagnostics are kept and how grave they are.  An allowed code is
dropped, whatever else holds.  A denied code is raised to an error, and that happens
before the threshold is looked at, so a denied code is never below it.
-/

namespace Interconnect

/-- Which diagnostics to keep. -/
structure Policy where
  /-- Codes raised to errors. -/
  denied : List Code
  /-- Codes dropped. -/
  allowed : List Code
  /-- The least severity that is kept. -/
  threshold : Severity
  deriving DecidableEq

namespace Policy

/-- Keeps every diagnostic as it is. -/
def permissive : Policy :=
  { denied := [], allowed := [], threshold := .help }

/-- The diagnostic as it is kept, or nothing if it is dropped. -/
def apply (p : Policy) (d : Diagnostic) : Option Diagnostic :=
  if p.allowed.contains d.code then none
  else
    let d := if p.denied.contains d.code then { d with severity := .error } else d
    if d.severity < p.threshold then none else some d

end Policy

end Interconnect
