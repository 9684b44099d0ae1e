import Interconnect.Text.Decimal
import Interconnect.Text.Hexadecimal
import Interconnect.Toml.Value

/-!
# Numbers and dates

Integers have 64 bits and can be written in base 2, 8, 10 or 16.  Floats are those of
64 bits; one that is too large to be finite is refused.  Dates and times are checked
against the calendar and the clock.
-/

namespace Interconnect.Toml

/-- Reads further digits, which may be set apart by single underscores. -/
def moreDigits (isDigit : Char → Bool) : List Char → List Char × List Char
  | [] => ([], [])
  | '_' :: d :: rest =>
    if isDigit d then
      let (ds, rest) := moreDigits isDigit rest
      (d :: ds, rest)
    else ([], '_' :: d :: rest)
  | d :: rest =>
    if isDigit d then
      let (ds, rest) := moreDigits isDigit rest
      (d :: ds, rest)
    else ([], d :: rest)

/-- Reads one digit or more. -/
def digits (isDigit : Char → Bool) : List Char → Option (List Char × List Char)
  | [] => none
  | d :: rest =>
    if isDigit d then
      let (ds, rest) := moreDigits isDigit rest
      some (d :: ds, rest)
    else none

/-- Reads a sign, if there is one. -/
def sign : List Char → List Char × List Char
  | '+' :: rest => (['+'], rest)
  | '-' :: rest => (['-'], rest)
  | cs => ([], cs)

/-- Reads the digits of a decimal integer.  A leading zero stands alone. -/
def decimalDigits : List Char → Option (List Char × List Char)
  | '0' :: rest => some (['0'], rest)
  | cs => digits Char.isDigit cs

/-- The value of digits in a base. -/
def valueIn (base : Nat) (ds : List Char) : Option Nat :=
  ds.foldlM (fun n d => (Hexadecimal.digitValue? d).map (base * n + ·)) 0

/-- The digits of a base. -/
def isDigitIn (base : Nat) (c : Char) : Bool :=
  (Hexadecimal.digitValue? c).any (· < base)

/-- The integer, if it fits in 64 bits. -/
def fitting? (n : Int) : Option Value :=
  if Int64.minValue.toInt ≤ n && n ≤ Int64.maxValue.toInt then some (.integer n) else none

/-- Reads an integer behind the prefix of its base. -/
def prefixed (base : Nat) (cs : List Char) : Option (Value × List Char) := do
  let (ds, rest) ← digits (isDigitIn base) cs
  return (← fitting? (← valueIn base ds), rest)

/-- Reads an integer. -/
def integer : List Char → Option (Value × List Char)
  | '0' :: 'x' :: rest => prefixed 16 rest
  | '0' :: 'o' :: rest => prefixed 8 rest
  | '0' :: 'b' :: rest => prefixed 2 rest
  | cs => do
    let (s, cs) := sign cs
    let (ds, rest) ← decimalDigits cs
    let n := Decimal.value ds
    return (← fitting? (if s = ['-'] then -n else n), rest)

/-- The least number that is too large for a finite float: it is half a unit above the
greatest one. -/
def floatBound : Nat :=
  Nat.pow 2 1024 - Nat.pow 2 970

/-- The number `ds`·10^`e` is too large for a finite float. -/
def tooLarge (ds : List Char) (e : Int) : Bool :=
  let m := Decimal.value ds
  if m = 0 then false
  else if 0 ≤ e then 400 < e || floatBound ≤ m * Nat.pow 10 e.toNat
  else if (ds.length : Int) < -e then false
  else floatBound * Nat.pow 10 (-e).toNat ≤ m

/-- Reads a point and the digits behind it, if there is a point. -/
def fraction? : List Char → Option (List Char × List Char)
  | '.' :: rest => digits Char.isDigit rest
  | cs => some ([], cs)

/-- Reads an exponent, if there is one: whether there was one, and its value. -/
def exponent? : List Char → Option ((Bool × Int) × List Char)
  | c :: rest =>
    if c = 'e' || c = 'E' then do
      let (s, rest) := sign rest
      let (ds, rest) ← digits Char.isDigit rest
      let n := Decimal.value ds
      return ((true, if s = ['-'] then -(n : Int) else n), rest)
    else some ((false, 0), c :: rest)
  | [] => some ((false, 0), [])

/-- What was read between two places of a text. -/
def written (cs rest : List Char) : String :=
  String.ofList (cs.take (cs.length - rest.length))

/-- Reads a float with a fraction or an exponent. -/
def plainFloat (cs : List Char) : Option (Value × List Char) := do
  let (s, unsigned) := sign cs
  let (whole, afterWhole) ← decimalDigits unsigned
  let (part, afterPart) ← fraction? afterWhole
  let ((hasExponent, e), rest) ← exponent? afterPart
  if part.isEmpty && !hasExponent then none
  else if s ≠ ['-'] && tooLarge (whole ++ part) (e - part.length) then none
  else some (.float (written cs rest), rest)

/-- Reads an infinity or a NaN. -/
def specialFloat (cs : List Char) : Option (Value × List Char) :=
  match (sign cs).2 with
  | 'i' :: 'n' :: 'f' :: rest => some (.float (written cs rest), rest)
  | 'n' :: 'a' :: 'n' :: rest => some (.float (written cs rest), rest)
  | _ => none

/-! ## Dates and times -/

/-- Reads exactly `count` digits, as a number within bounds. -/
def field (count low high : Nat) (cs : List Char) : Option (Nat × List Char) :=
  let ds := cs.take count
  let n := Decimal.value ds
  if ds.length = count && ds.all Char.isDigit && low ≤ n && n ≤ high then
    some (n, cs.drop count)
  else none

/-- Reads one character. -/
def expect (c : Char) : List Char → Option (List Char)
  | c' :: rest => if c' = c then some rest else none
  | [] => none

/-- The days of a month. -/
def daysIn (year month : Nat) : Nat :=
  if month = 2 then
    if year % 4 = 0 && (year % 100 ≠ 0 || year % 400 = 0) then 29 else 28
  else if month = 4 || month = 6 || month = 9 || month = 11 then 30
  else 31

/-- Reads a date. -/
def date (cs : List Char) : Option (List Char) := do
  let (year, cs) ← field 4 0 9999 cs
  let (month, cs) ← field 2 1 12 (← expect '-' cs)
  let (_, cs) ← field 2 1 (daysIn year month) (← expect '-' cs)
  return cs

/-- Reads a time of day. -/
def time (cs : List Char) : Option (List Char) := do
  let (_, cs) ← field 2 0 23 cs
  let (_, cs) ← field 2 0 59 (← expect ':' cs)
  let (_, cs) ← field 2 0 60 (← expect ':' cs)
  match cs with
  | '.' :: rest =>
    if rest.head?.any Char.isDigit then return rest.dropWhile Char.isDigit else none
  | cs => return cs

/-- Reads the distance from universal time, if it is given. -/
def offset : List Char → Option (List Char)
  | c :: rest =>
    if c = 'Z' || c = 'z' then some rest
    else if c = '+' || c = '-' then do
      let (_, cs) ← field 2 0 23 rest
      let (_, cs) ← field 2 0 59 (← expect ':' cs)
      return cs
    else some (c :: rest)
  | [] => some []

/-- Reads the time that follows a date, if one does. -/
def timeOfDate (cs : List Char) : Option (List Char) :=
  match cs with
  | c :: rest =>
    if c = 'T' || c = 't' || c = ' ' then
      match time rest with
      | some behind => offset behind
      | none => some cs
    else some cs
  | [] => some []

/-- Reads a date, a time, or both. -/
def datetime (cs : List Char) : Option (Value × List Char) := do
  let rest ← match date cs with
    | some behind => timeOfDate behind
    | none => time cs
  return (.datetime (written cs rest), rest)

/-- Reads whatever starts like a number. -/
def number (cs : List Char) : Option (Value × List Char) :=
  (((datetime cs).or (plainFloat cs)).or (specialFloat cs)).or (integer cs)

end Interconnect.Toml
