/-!
# Decimal numerals

Reading and writing natural numbers in base ten, over lists of characters.  `value`
reads digits of any length, `digits` writes without leading zeros, and `padded` fills
up to a least width with zeros on the left.
-/

namespace Interconnect.Decimal

/-- The value of one ASCII digit. -/
def digitValue (c : Char) : Nat :=
  c.toNat - '0'.toNat

/-- The value of a run of ASCII digits, most significant first. -/
def value (ds : List Char) : Nat :=
  ds.foldl (fun n d => 10 * n + digitValue d) 0

/-- The digits of `n`, most significant first, without leading zeros. -/
def digits (n : Nat) : List Char :=
  Nat.toDigits 10 n

/-- The digits of `n`, filled up with zeros on the left to at least `width`. -/
def padded (width n : Nat) : List Char :=
  List.replicate (width - (digits n).length) '0' ++ digits n

end Interconnect.Decimal
