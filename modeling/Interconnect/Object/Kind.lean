/-!
# Kinds of objects

Every object of a store is of one of twelve kinds.  The name of a kind opens the ids of
its objects and is the value of their `type` attribute.
-/

namespace Interconnect

/-- What an object is. -/
inductive Kind where
  /-- A connection point of a module. -/
  | port
  /-- A connection point of an instance. -/
  | pin
  /-- A named value of a module. -/
  | parameter
  /-- A value that an instance gives to a parameter of its module. -/
  | adjustment
  /-- A signal inside a module. -/
  | declaration
  /-- A verbatim piece of code inside a module. -/
  | code
  /-- A hardware module. -/
  | module
  /-- A placement of a module. -/
  | inst
  /-- A named group of connected ports, pins and declarations. -/
  | net
  /-- A register file of a module. -/
  | regfile
  /-- An entry of a register file. -/
  | entry
  /-- A register of an entry. -/
  | register
  deriving DecidableEq

namespace Kind

/-- Every kind, once. -/
def all : List Kind :=
  [port, pin, parameter, adjustment, declaration, code, module, inst, net, regfile, entry,
    register]

theorem mem_all (k : Kind) : k ∈ all := by
  cases k <;> decide

/-- The name of a kind in ids, attributes and messages. -/
def name : Kind → String
  | port => "port"
  | pin => "pin"
  | parameter => "parameter"
  | adjustment => "adjustment"
  | declaration => "declaration"
  | code => "codesection"
  | module => "module"
  | inst => "instance"
  | net => "net"
  | regfile => "regfile"
  | entry => "regfile-entry"
  | register => "regfile-reg"

/-- The id of an object of this kind.  The scope of a module, an instance or a net is its
name; every other object is scoped by its owner's name, a dot and its own name. -/
def objectId (k : Kind) (scope : String) : String :=
  k.name ++ "::" ++ scope

end Kind

end Interconnect
