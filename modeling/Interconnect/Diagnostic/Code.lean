import Interconnect.Text.Decimal

/-!
# Diagnostic codes

A code is a category letter followed by a number, written with at least three digits:
`E300`, `W007`, `N65535`.  `Code.parse?` reads a letter and one or more ASCII digits
whose value fits in 16 bits.  It takes any number of leading zeros, so `W7`, `W007` and
`W0007` are the same code.
-/

namespace Interconnect

/-- What a code is about; the first letter of its text. -/
inductive Category where
  | error
  | warning
  | note
  deriving DecidableEq

namespace Category

/-- The letter that starts a code of this category. -/
def letter : Category → Char
  | error => 'E'
  | warning => 'W'
  | note => 'N'

/-- The category that a code's first letter names. -/
def ofLetter? : Char → Option Category
  | 'E' => some error
  | 'W' => some warning
  | 'N' => some note
  | _ => none

/-- The name of the category in structured output. -/
def name : Category → String
  | error => "Error"
  | warning => "Warning"
  | note => "Note"

/-- Reads the name of a category.  Letter case counts. -/
def ofName? : String → Option Category
  | "Error" => some error
  | "Warning" => some warning
  | "Note" => some note
  | _ => none

theorem ofLetter?_letter (c : Category) : ofLetter? c.letter = some c := by
  cases c <;> rfl

theorem ofName?_name (c : Category) : ofName? c.name = some c := by
  cases c <;> rfl

end Category

/-- A category and a number within it. -/
structure Code where
  category : Category
  number : UInt16
  deriving DecidableEq

namespace Code

/-- The greatest number a code can carry. -/
def maxNumber : Nat := 65535

/-- The characters of a code: its letter, then its number in at least three digits. -/
def chars (c : Code) : List Char :=
  c.category.letter :: Decimal.padded 3 c.number.toNat

/-- The text of a code. -/
def text (c : Code) : String :=
  String.ofList c.chars

/-- Reads a code from its characters. -/
def ofChars? : List Char → Option Code
  | [] => none
  | first :: digits =>
    match Category.ofLetter? first with
    | none => none
    | some category =>
      if digits.isEmpty || !digits.all Char.isDigit then none
      else if Decimal.value digits ≤ maxNumber then
        some { category, number := UInt16.ofNat (Decimal.value digits) }
      else none

/-- Reads a code from its text. -/
def parse? (s : String) : Option Code :=
  ofChars? s.toList

/-- What is said of a text that is no code. -/
def invalidMessage (s : String) : String :=
  s!"invalid diagnostic code '{s}'"

end Code

end Interconnect
