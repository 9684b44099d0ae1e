import Interconnect.Store.Basic

/-!
# Parts

All parts are added in the same way.  The name must not be empty, the owner must be of the
right kind, a resource takes no inner content, and the id must be free; then the part is
created and listed by its owner.  `attach` is that way, and the functions after it name
its uses.
-/

namespace Interconnect.Store

/-- The id of a part: its kind, its owner's name and its own name. -/
def partId (p : Part) (ownerName name : String) : String :=
  p.kind.objectId (ownerName ++ "." ++ name)

/-- The owner of a new part, if it can take one like `p`. -/
def expectOwner (s : Store) (owner : Handle) (p : Part) : Except StoreError Object := do
  let o ← s.expectKind p.ownerKind owner
  match p.innerContent?, o.module? with
  | some what, some m => if m.resource then throw (.resourceModule what o.name) else return o
  | _, _ => return o

/-- Creates a part and lists it at its owner. -/
def createPart (s : Store) (owner : Object) (name : String) (p : Part) : Store × Handle :=
  let (s, h) := s.create (owner.name ++ "." ++ name) name (.part owner.handle p)
    (p.details ++ [("parent", owner.id)])
  (s.modify owner.handle (Object.adopt p h), h)

/-- Adds a part under a name. -/
def attach (s : Store) (owner : Handle) (name : String) (p : Part) :
    Except StoreError (Store × Handle) := do
  if name.isEmpty then throw (.emptyName p.label)
  let o ← s.expectOwner owner p
  s.expectFree (partId p o.name name)
  return s.createPart o name p

/-- Adds a port to a module. -/
def addPort (s : Store) (module : Handle) (name : String) (direction : PortDirection) :
    Except StoreError (Store × Handle) :=
  s.attach module name (.port direction none)

/-- Adds a pin to an instance. -/
def addPin (s : Store) (inst : Handle) (name connection : String) (inverted : Bool) :
    Except StoreError (Store × Handle) :=
  s.attach inst name (.pin connection inverted none)

/-- Adds a parameter to a module. -/
def addParameter (s : Store) (module : Handle) (name value : String) (isLocal : Bool) :
    Except StoreError (Store × Handle) :=
  s.attach module name (.parameter value isLocal)

/-- Adds an adjustment to an instance. -/
def addAdjustment (s : Store) (inst : Handle) (name value : String) :
    Except StoreError (Store × Handle) :=
  s.attach inst name (.adjustment value)

/-- Adds a declaration to a module. -/
def addDeclaration (s : Store) (module : Handle) (name : String) (defaultType : Bool)
    (assigned : Option String) : Except StoreError (Store × Handle) :=
  s.attach module name (.declaration defaultType assigned none)

/-- The name of a code section that is given none: it counts the sections before it. -/
def codeName (o : Object) : String :=
  "_cs_" ++ toString (o.module?.elim 0 fun m => m.code.length)

/-- Adds a code section to a module.  The module is looked at before the name. -/
def addCode (s : Store) (module : Handle) (name : Option String) (text : String) :
    Except StoreError (Store × Handle) := do
  let o ← s.expectOwner module (.code text)
  s.attach module (name.getD (codeName o)) (.code text)

/-- Adds a register file to a module. -/
def addRegfile (s : Store) (module : Handle) (name : String) :
    Except StoreError (Store × Handle) :=
  s.attach module name (.regfile [])

/-- Adds an entry to a register file. -/
def addEntry (s : Store) (regfile : Handle) (name : String) :
    Except StoreError (Store × Handle) :=
  s.attach regfile name (.entry [])

/-- Adds a register to an entry. -/
def addRegister (s : Store) (entry : Handle) (name : String) :
    Except StoreError (Store × Handle) :=
  s.attach entry name .register

end Interconnect.Store
