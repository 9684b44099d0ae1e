import Interconnect.Object.Basic

/-!
# Headings

Which way a value travels at one side of a connection, seen from that side.  An unset
heading yields to any other, and two different headings that are both set make the value
travel both ways, which is reported as a clash.
-/

namespace Interconnect

/-- The way that a value travels. -/
inductive Heading where
  /-- Up the hierarchy, out of the module. -/
  | up
  /-- Down the hierarchy, into the module. -/
  | down
  /-- Both ways. -/
  | bidir
  /-- No preference. -/
  | unset
  deriving DecidableEq

namespace Heading

/-- What two headings at one place amount to. -/
def join : Heading → Heading → Heading
  | unset, b => b
  | a, unset => a
  | a, b => if a = b then a else bidir

/-- Both headings are set, and they differ. -/
def clashes (a b : Heading) : Bool :=
  a ≠ unset && b ≠ unset && a ≠ b

/-- The direction of the ports that a heading asks for. -/
def portDirection : Heading → PortDirection
  | up => .output
  | bidir => .bidirectional
  | down | unset => .input

theorem join_comm (a b : Heading) : a.join b = b.join a := by
  cases a <;> cases b <;> rfl

theorem join_assoc (a b c : Heading) : (a.join b).join c = a.join (b.join c) := by
  cases a <;> cases b <;> cases c <;> rfl

theorem join_self (a : Heading) : a.join a = a := by
  cases a <;> rfl

end Heading

end Interconnect
