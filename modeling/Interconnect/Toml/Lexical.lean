import Interconnect.Text.Hexadecimal

/-!
# Blanks, comments and strings

The smallest parts of a TOML document.  Every reader takes the characters from where it
starts and gives back those behind what it has read.
-/

namespace Interconnect.Toml

/-- A character between tokens on one line. -/
def isBlank (c : Char) : Bool :=
  c = ' ' || c = '\t'

/-- A character that can stand on a line: a tab, or anything but a control character. -/
def isPrintable (c : Char) : Bool :=
  c = '\t' || (0x20 ≤ c.toNat && c.toNat ≠ 0x7F)

/-- The characters from the next token on this line on. -/
def skipBlanks (cs : List Char) : List Char :=
  cs.dropWhile isBlank

/-- The characters behind a line end. -/
def newline? : List Char → Option (List Char)
  | '\n' :: rest => some rest
  | '\r' :: '\n' :: rest => some rest
  | _ => none

/-- The characters of the next line, if nothing but a comment is left on this one. -/
def endLine? (cs : List Char) : Option (List Char) :=
  let cs := match skipBlanks cs with
    | '#' :: rest => rest.dropWhile isPrintable
    | cs => cs
  match cs with
  | [] => some []
  | cs => newline? cs

/-- The characters from the next token on any line on. -/
def skipLines (inComment : Bool) : List Char → List Char
  | [] => []
  | '\n' :: rest => skipLines false rest
  | '\r' :: '\n' :: rest => skipLines false rest
  | c :: rest =>
    if inComment then
      if isPrintable c then skipLines true rest else c :: rest
    else if isBlank c then skipLines false rest
    else if c = '#' then skipLines true rest
    else c :: rest

/-! ## Strings -/

/-- The character that a one-letter escape stands for. -/
def escaped? : Char → Option Char
  | 'b' => some '\x08'
  | 't' => some '\t'
  | 'n' => some '\n'
  | 'f' => some '\x0c'
  | 'r' => some '\r'
  | '"' => some '"'
  | '\\' => some '\\'
  | _ => none

/-- The character whose code point is written in hexadecimal digits. -/
def codePoint? (ds : List Char) : Option Char := do
  let n ← Hexadecimal.value? ds
  if n.isValidChar then some (Char.ofNat n) else none

/-- What has been read of a string, with one more character in front. -/
def prepend (c : Char) : Option (List Char × List Char) → Option (List Char × List Char) :=
  Option.map fun (cs, rest) => (c :: cs, rest)

/-- Reads a string on one line from behind its opening quotation mark. -/
def basic : List Char → Option (List Char × List Char)
  | [] => none
  | '"' :: rest => some ([], rest)
  | '\\' :: 'u' :: a :: b :: c :: d :: rest => do
    prepend (← codePoint? [a, b, c, d]) (basic rest)
  | '\\' :: 'U' :: a :: b :: c :: d :: e :: f :: g :: h :: rest => do
    prepend (← codePoint? [a, b, c, d, e, f, g, h]) (basic rest)
  | '\\' :: e :: rest => do prepend (← escaped? e) (basic rest)
  | c :: rest => if c = '\\' || !isPrintable c then none else prepend c (basic rest)

/-- Reads a string without escapes on one line from behind its opening apostrophe. -/
def literal : List Char → Option (List Char × List Char)
  | [] => none
  | '\'' :: rest => some ([], rest)
  | c :: rest => if isPrintable c then prepend c (literal rest) else none

/-- The end of a string on several lines: up to two more quotes right behind the closing
ones belong to the string. -/
def closing (quote : Char) : List Char → List Char × List Char
  | a :: b :: rest =>
    if a = quote then
      if b = quote then ([quote, quote], rest) else ([quote], b :: rest)
    else ([], a :: b :: rest)
  | [a] => if a = quote then ([quote], []) else ([], [a])
  | [] => ([], [])

/-- Where a reader stands in a string on several lines. -/
inductive Fold where
  /-- In the text. -/
  | text
  /-- Behind a backslash, before the line end that it takes away. -/
  | broken
  /-- Behind such a line end, before the next character that is no space. -/
  | trimmed

/-- Reads a string on several lines from behind its opening quotation marks. -/
def basicLines : Fold → List Char → Option (List Char × List Char)
  | _, [] => none
  | .broken, '\n' :: rest => basicLines .trimmed rest
  | .broken, '\r' :: '\n' :: rest => basicLines .trimmed rest
  | .broken, c :: rest => if isBlank c then basicLines .broken rest else none
  | .trimmed, '\n' :: rest => basicLines .trimmed rest
  | .trimmed, '\r' :: '\n' :: rest => basicLines .trimmed rest
  | .trimmed, ' ' :: rest => basicLines .trimmed rest
  | .trimmed, '\t' :: rest => basicLines .trimmed rest
  | _, '"' :: '"' :: '"' :: rest => some (closing '"' rest)
  | _, '\\' :: 'u' :: a :: b :: c :: d :: rest => do
    prepend (← codePoint? [a, b, c, d]) (basicLines .text rest)
  | _, '\\' :: 'U' :: a :: b :: c :: d :: e :: f :: g :: h :: rest => do
    prepend (← codePoint? [a, b, c, d, e, f, g, h]) (basicLines .text rest)
  | _, '\\' :: e :: rest =>
    if isBlank e || e = '\n' || e = '\r' then basicLines .broken (e :: rest)
    else do prepend (← escaped? e) (basicLines .text rest)
  | _, '\r' :: '\n' :: rest => prepend '\n' (basicLines .text rest)
  | _, c :: rest =>
    if c = '\n' || (c ≠ '\\' && isPrintable c) then prepend c (basicLines .text rest)
    else none

/-- Reads a string without escapes on several lines from behind its opening
apostrophes. -/
def literalLines : List Char → Option (List Char × List Char)
  | [] => none
  | '\'' :: '\'' :: '\'' :: rest => some (closing '\'' rest)
  | '\r' :: '\n' :: rest => prepend '\n' (literalLines rest)
  | c :: rest =>
    if c = '\n' || isPrintable c then prepend c (literalLines rest) else none

/-- The characters behind a line end right at the start. -/
def dropNewline (cs : List Char) : List Char :=
  (newline? cs).getD cs

/-- Reads a string of any form. -/
def string? : List Char → Option (List Char × List Char)
  | '"' :: '"' :: '"' :: rest => basicLines .text (dropNewline rest)
  | '"' :: rest => basic rest
  | '\'' :: '\'' :: '\'' :: rest => literalLines (dropNewline rest)
  | '\'' :: rest => literal rest
  | _ => none

end Interconnect.Toml
