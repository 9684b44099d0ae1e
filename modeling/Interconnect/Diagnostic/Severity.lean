/-!
# Severities

How grave a diagnostic is, from a mere hint to an error.  The order of the
constructors is the order of gravity, and thresholds compare by it.
-/

namespace Interconnect

/-- The gravity of a diagnostic, least first. -/
inductive Severity where
  | help
  | note
  | warning
  | error
  deriving DecidableEq

namespace Severity

/-- The position in the order of gravity. -/
def rank : Severity → Nat
  | help => 0
  | note => 1
  | warning => 2
  | error => 3

instance : LT Severity := ⟨fun a b => a.rank < b.rank⟩

instance : LE Severity := ⟨fun a b => a.rank ≤ b.rank⟩

instance (a b : Severity) : Decidable (a < b) :=
  inferInstanceAs (Decidable (a.rank < b.rank))

instance (a b : Severity) : Decidable (a ≤ b) :=
  inferInstanceAs (Decidable (a.rank ≤ b.rank))

instance : Ord Severity := ⟨fun a b => compare a.rank b.rank⟩

/-- A hint is below a note, a note below a warning, and a warning below an error. -/
theorem lt_iff {a b : Severity} :
    a < b ↔ (a, b) ∈ [(help, note), (help, warning), (help, error), (note, warning),
      (note, error), (warning, error)] := by
  cases a <;> cases b <;> decide

/-- The word that names the severity, in settings and in output. -/
def name : Severity → String
  | help => "help"
  | note => "note"
  | warning => "warning"
  | error => "error"

/-- Reads the name of a severity.  Letter case counts. -/
def ofName? : String → Option Severity
  | "help" => some help
  | "note" => some note
  | "warning" => some warning
  | "error" => some error
  | _ => none

theorem ofName?_name (s : Severity) : ofName? s.name = some s := by
  cases s <;> rfl

end Severity

end Interconnect
