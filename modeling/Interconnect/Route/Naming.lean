import Interconnect.Route.Heading
import Interconnect.Text.Letters

/-!
# Generated names

The names of realized objects are made of a base and a suffix: `_o`, `_b` or `_i` for a
port or a pin by its heading, and `_s` for a signal inside a module.  The letter of the
suffix is a capital where the base is upper case, that is, where it has letters and none
of them is lower case.
-/

namespace Interconnect.Naming

/-- The base has letters, and none is lower case. -/
def isUpperCase (base : String) : Bool :=
  base.toList.any Letters.isAlphabetic && !base.toList.any Letters.isLowercase

/-- The base with a suffix in its own case. -/
def withSuffix (base : String) (letter : Char) : String :=
  base ++ String.ofList ['_', if isUpperCase base then letter.toUpper else letter]

/-- The letters that a direction suffix ends in, in either case. -/
def directionLetters : List Char :=
  ['i', 'o', 'b', 'I', 'O', 'B']

/-- The characters without a direction suffix.  A suffix is one only where something
stands before it. -/
def stripChars (cs : List Char) : List Char :=
  match cs.reverse with
  | letter :: '_' :: c :: rest =>
    if directionLetters.contains letter then (c :: rest).reverse else cs
  | _ => cs

/-- The name without a direction suffix. -/
def stripDirection (name : String) : String :=
  String.ofList (stripChars name.toList)

/-- The letter that stands for a heading. -/
def headingLetter : Heading → Char
  | .up => 'o'
  | .bidir => 'b'
  | .down | .unset => 'i'

/-- The name of a port or a pin that carries `base`.  A direction suffix on the base is
replaced. -/
def pinName (base : String) (heading : Heading) : String :=
  withSuffix (stripDirection base) (headingLetter heading)

/-- The name of a signal inside a module that carries `base`. -/
def signalName (base : String) : String :=
  withSuffix base 's'

end Interconnect.Naming
