import Interconnect.Toml.Lexical
import Interconnect.Toml.Number
import Interconnect.Toml.Table

/-!
# Documents

A document is a list of lines: headers, and pairs of a key and a value.  The pairs before
the first header belong to the root table, and those behind a header to the table that it
names.
-/

namespace Interconnect.Toml

/-- How deep arrays and tables may be nested, and how many parts a key may have. -/
def nestingLimit : Nat := 79

/-! ## Keys -/

/-- A character of a key without quotes. -/
def isKeyChar (c : Char) : Bool :=
  c.isAlphanum || c = '_' || c = '-'

/-- Reads one part of a key. -/
def simpleKey (cs : List Char) : Option (String × List Char) :=
  match cs with
  | '"' :: rest => (basic rest).map fun (k, rest) => (String.ofList k, rest)
  | '\'' :: rest => (literal rest).map fun (k, rest) => (String.ofList k, rest)
  | cs =>
    match cs.span isKeyChar with
    | ([], _) => none
    | (k, rest) => some (String.ofList k, rest)

/-- Reads the parts of a key: those before the last, and the last. -/
def keyParts : Nat → List Char → Option ((List String × String) × List Char)
  | 0, _ => none
  | fuel + 1, cs => do
    let (key, cs) ← simpleKey (skipBlanks cs)
    match skipBlanks cs with
    | '.' :: rest =>
      let ((path, last), rest) ← keyParts fuel rest
      return ((key :: path, last), rest)
    | rest => return (([], key), rest)

/-- Reads a key. -/
def key (cs : List Char) : Option ((List String × String) × List Char) :=
  keyParts nestingLimit cs

/-! ## Values -/

mutual

/-- Reads a value that starts here.  `fuel` bounds how far the reading goes, and `depth`
how many arrays and tables may still be opened. -/
def value : Nat → Nat → List Char → Option (Value × List Char)
  | 0, _, _ => none
  | fuel + 1, depth, cs =>
    match cs with
    | 't' :: 'r' :: 'u' :: 'e' :: rest => some (.boolean true, rest)
    | 'f' :: 'a' :: 'l' :: 's' :: 'e' :: rest => some (.boolean false, rest)
    | '[' :: rest =>
      match depth with
      | 0 => none
      | depth + 1 => (items fuel depth rest).map fun (vs, rest) => (.array vs, rest)
    | '\x7b' :: rest =>
      match depth with
      | 0 => none
      | depth + 1 =>
        match skipBlanks rest with
        | '\x7d' :: rest => some (.table [], rest)
        | rest => do
          let (ps, rest) ← pairs fuel depth rest
          return (← Value.ofPairs? ps, rest)
    | c :: _ =>
      if c = '"' || c = '\'' then
        (string? cs).map fun (s, rest) => (.string (String.ofList s), rest)
      else number cs
    | [] => none

/-- Reads the rest of an array, with its closing bracket.  A comma may follow the last
item. -/
def items : Nat → Nat → List Char → Option (List Value × List Char)
  | 0, _, _ => none
  | fuel + 1, depth, cs =>
    match skipLines false cs with
    | ']' :: rest => some ([], rest)
    | cs => do
      let (v, cs) ← value fuel depth cs
      match skipLines false cs with
      | ',' :: rest =>
        let (vs, rest) ← items fuel depth rest
        return (v :: vs, rest)
      | ']' :: rest => return ([v], rest)
      | _ => none

/-- Reads the pairs of a table on one line, with its closing brace.  No comma follows the
last pair. -/
def pairs : Nat → Nat → List Char → Option (List Pair × List Char)
  | 0, _, _ => none
  | fuel + 1, depth, cs => do
    let ((path, last), cs) ← key cs
    let cs ← expect '=' cs
    let (v, cs) ← value fuel depth (skipBlanks cs)
    let pair : Pair := { path, key := last, value := v }
    match skipBlanks cs with
    | ',' :: rest =>
      let (ps, rest) ← pairs fuel depth rest
      return (pair :: ps, rest)
    | '\x7d' :: rest => return ([pair], rest)
    | _ => none

end

/-! ## Lines -/

/-- A line that says something. -/
inductive Line where
  | header (h : Header)
  | pair (p : Pair)

/-- Reads a header from behind its opening brackets. -/
def header (build : List String → String → Header) (closing : List Char)
    (cs : List Char) : Option (Line × List Char) := do
  let ((path, last), cs) ← key cs
  let cs ← closing.foldlM (fun cs c => expect c cs) cs
  return (.header (build path last), cs)

/-- Reads a pair. -/
def pair (cs : List Char) : Option (Line × List Char) := do
  let ((path, last), cs) ← key cs
  let cs ← expect '=' cs
  let (v, cs) ← value (2 * cs.length + 2) nestingLimit (skipBlanks cs)
  return (.pair { path, key := last, value := v }, cs)

/-- Reads the lines up to the end. -/
def lines : Nat → List Char → Option (List Line)
  | 0, _ => none
  | fuel + 1, cs =>
    let content (reader : Option (Line × List Char)) : Option (List Line) := do
      let (line, cs) ← reader
      return line :: (← lines fuel (← endLine? cs))
    match skipBlanks cs with
    | [] => some []
    | '[' :: '[' :: rest => content (header .array [']', ']'] rest)
    | '[' :: rest => content (header .table [']'] rest)
    | c :: rest =>
      if c = '#' || c = '\n' || c = '\r' then do lines fuel (← endLine? (c :: rest))
      else content (pair (c :: rest))

/-- The pairs before the first header, and the sections behind. -/
def sections : List Line → List Pair × List (Header × List Pair)
  | [] => ([], [])
  | .pair p :: rest => (p :: (sections rest).1, (sections rest).2)
  | .header h :: rest => ([], (h, (sections rest).1) :: (sections rest).2)

/-- Reads a document as the entries of its root table.  A byte order mark in front does not
count. -/
def parse? (s : String) : Option (List (String × Value)) := do
  let cs := match s.toList with
    | '\ufeff' :: rest => rest
    | cs => cs
  let (top, others) := sections (← lines (cs.length + 1) cs)
  let root ← addPairs [] top
  let root ← others.foldlM (fun root (h, ps) => addSection root h ps) root
  return closeAll root

end Interconnect.Toml
