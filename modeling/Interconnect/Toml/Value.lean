/-!
# TOML values

What a TOML document says, without the way it is laid out.  Floats and dates are kept as
they are written.
-/

namespace Interconnect.Toml

/-- A TOML value. -/
inductive Value where
  | string (s : String)
  | integer (n : Int)
  | float (literal : String)
  | boolean (b : Bool)
  | datetime (literal : String)
  | array (items : List Value)
  | table (entries : List (String × Value))

/-- A value with nothing inside. -/
def Value.isEmpty : Value → Bool
  | array items => items.isEmpty
  | table entries => entries.isEmpty
  | _ => false

end Interconnect.Toml
