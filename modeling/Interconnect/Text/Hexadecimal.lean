/-!
# Hexadecimal numerals

Reading hexadecimal digits, in either case.
-/

namespace Interconnect.Hexadecimal

/-- The value of a hexadecimal digit. -/
def digitValue? (c : Char) : Option Nat :=
  if c.isDigit then some (c.toNat - '0'.toNat)
  else if 'a' ≤ c && c ≤ 'f' then some (c.toNat - 'a'.toNat + 10)
  else if 'A' ≤ c && c ≤ 'F' then some (c.toNat - 'A'.toNat + 10)
  else none

/-- The value of a run of hexadecimal digits, most significant first. -/
def value? (ds : List Char) : Option Nat :=
  ds.foldlM (fun n d => (digitValue? d).map (16 * n + ·)) 0

end Interconnect.Hexadecimal
