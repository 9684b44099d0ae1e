import Interconnect.Collection.Arena
import Interconnect.Collection.OrderedMap
import Interconnect.Object.Kind

/-!
# Objects

An object has a handle, an id, a name of its own, attributes, and a body that depends on
its kind.  Modules, instances and nets stand by themselves.  All other objects are
*parts*: a part belongs to an owner of a fixed kind, and the owner lists its parts.

The attributes of an object open with the built-in ones, which repeat its type, id, name
and body as text and are constant.
-/

namespace Interconnect

/-- Which way data flows through a port. -/
inductive PortDirection where
  | input
  | output
  | bidirectional
  deriving DecidableEq

/-- The word for a direction, as the `direction` attribute has it. -/
def PortDirection.name : PortDirection → String
  | input => "input"
  | output => "output"
  | bidirectional => "bidirectional"

/-- A value under an attribute's name. -/
structure Attribute where
  value : String
  /-- A constant attribute is never written again by a caller. -/
  constant : Bool
  deriving DecidableEq

/-- The attributes of an object, by name. -/
abbrev Attributes := OrderedMap String Attribute

/-- The text of a flag. -/
def flagText (b : Bool) : String :=
  if b then "true" else "false"

/-- What a module consists of.  Lists are in creation order. -/
structure Module where
  /-- An opaque block that was built beforehand. -/
  ilm : Bool
  /-- A resource can be instantiated any number of times and has no inner content. -/
  resource : Bool
  params : List Handle := []
  ports : List Handle := []
  decls : List Handle := []
  code : List Handle := []
  regfiles : List Handle := []
  /-- The instances placed in this module. -/
  children : List Handle := []
  /-- The instances of this module, wherever they are placed. -/
  placements : List Handle := []
  /-- The one instance of a module that is no resource. -/
  defaultInstance : Option Handle := none
  deriving DecidableEq

/-- A placement of a module in another.  Lists are in creation order. -/
structure Instance where
  /-- The module that is placed. -/
  module : Handle
  /-- The module it is placed in, once it is placed. -/
  parent : Option Handle
  adjustments : List Handle := []
  pins : List Handle := []
  deriving DecidableEq

/-- What belongs to an owner. -/
inductive Part where
  | port (direction : PortDirection) (net : Option Handle)
  /-- A pin carries the signal `connection` of the module its instance is placed in. -/
  | pin (connection : String) (inverted : Bool) (net : Option Handle)
  | parameter (value : String) (isLocal : Bool)
  | adjustment (value : String)
  | declaration (defaultType : Bool) (assigned : Option String) (net : Option Handle)
  | code (text : String)
  | regfile (entries : List Handle)
  | entry (registers : List Handle)
  | register
  deriving DecidableEq

namespace Part

/-- The kind of a part. -/
def kind : Part → Kind
  | port .. => .port
  | pin .. => .pin
  | parameter .. => .parameter
  | adjustment .. => .adjustment
  | declaration .. => .declaration
  | code .. => .code
  | regfile .. => .regfile
  | entry .. => .entry
  | register => .register

/-- The kind of the objects that own such a part. -/
def ownerKind : Part → Kind
  | port .. | parameter .. | declaration .. | code .. | regfile .. => .module
  | pin .. | adjustment .. => .inst
  | entry .. => .regfile
  | register => .entry

/-- What a part is called where its name is missing. -/
def label : Part → String
  | port .. => "port"
  | pin .. => "pin"
  | parameter .. => "parameter"
  | adjustment .. => "adjustment"
  | declaration .. => "declaration"
  | code .. => "code section"
  | regfile .. => "regfile"
  | entry .. => "regfile entry"
  | register => "regfile reg"

/-- Inner content, which a resource module cannot hold, under the name it is refused by. -/
def innerContent? : Part → Option String
  | declaration .. => some "declaration"
  | code .. => some "code section"
  | regfile .. => some "register file"
  | _ => none

/-- The attributes that repeat the part's own data. -/
def details : Part → List (String × String)
  | port direction _ => [("direction", direction.name)]
  | pin connection inverted _ => [("connection", connection), ("invert", flagText inverted)]
  | parameter value isLocal => [("value", value), ("local", flagText isLocal)]
  | adjustment value => [("value", value)]
  | declaration defaultType assigned _ =>
    ("default_type", flagText defaultType)
      :: (assigned.map fun value => ("assign", value)).toList
  | code text => [("code", text)]
  | regfile _ | entry _ | register => []

/-- The net that the part has joined. -/
def net? : Part → Option Handle
  | port _ net | pin _ _ net | declaration _ _ net => net
  | _ => none

/-- Only ports, pins and declarations join nets. -/
def joinsNets : Part → Bool
  | port .. | pin .. | declaration .. => true
  | _ => false

/-- The part as a member of `net`. -/
def joined (net : Handle) : Part → Part
  | port direction _ => port direction (some net)
  | pin connection inverted _ => pin connection inverted (some net)
  | declaration defaultType assigned _ => declaration defaultType assigned (some net)
  | p => p

end Part

/-- What an object consists of, by its kind. -/
inductive Body where
  | module (m : Module)
  | inst (i : Instance)
  | net (members : List Handle)
  | part (owner : Handle) (p : Part)
  deriving DecidableEq

namespace Body

/-- The kind of an object with this body. -/
def kind : Body → Kind
  | module _ => .module
  | inst _ => .inst
  | net _ => .net
  | part _ p => p.kind

/-- The body with `h`, a part like `p`, at the end of the list that holds such parts. -/
def adopt (p : Part) (h : Handle) : Body → Body
  | module m =>
    match p with
    | .port .. => module { m with ports := m.ports ++ [h] }
    | .parameter .. => module { m with params := m.params ++ [h] }
    | .declaration .. => module { m with decls := m.decls ++ [h] }
    | .code .. => module { m with code := m.code ++ [h] }
    | .regfile .. => module { m with regfiles := m.regfiles ++ [h] }
    | _ => module m
  | inst i =>
    match p with
    | .pin .. => inst { i with pins := i.pins ++ [h] }
    | .adjustment .. => inst { i with adjustments := i.adjustments ++ [h] }
    | _ => inst i
  | part owner (.regfile entries) =>
    match p with
    | .entry .. => part owner (.regfile (entries ++ [h]))
    | _ => part owner (.regfile entries)
  | part owner (.entry registers) =>
    match p with
    | .register => part owner (.entry (registers ++ [h]))
    | _ => part owner (.entry registers)
  | b => b

/-- Owning a part does not change what an object is. -/
@[simp] theorem kind_adopt (p : Part) (h : Handle) (b : Body) :
    (b.adopt p h).kind = b.kind := by
  unfold adopt
  split <;> try rfl
  all_goals split <;> rfl

end Body

/-- A stored object. -/
structure Object where
  handle : Handle
  id : String
  /-- The name without its scope. -/
  name : String
  attributes : Attributes
  body : Body
  deriving DecidableEq

namespace Object

/-- What the object is. -/
def kind (o : Object) : Kind :=
  o.body.kind

/-- The module that the object is. -/
def module? (o : Object) : Option Module :=
  match o.body with
  | .module m => some m
  | _ => none

/-- The instance that the object is. -/
def instance? (o : Object) : Option Instance :=
  match o.body with
  | .inst i => some i
  | _ => none

/-- The net that the object has joined. -/
def net? (o : Object) : Option Handle :=
  match o.body with
  | .part _ p => p.net?
  | _ => none

/-- The object directly above a module or an instance: a module is reached through its
default instance, and an instance stands in the module it is placed in.  No other object
has a place in the hierarchy. -/
def above? (o : Object) : Option (Option Handle) :=
  match o.body with
  | .module m => some m.defaultInstance
  | .inst i => some i.parent
  | _ => none

/-- The object with another entry in the list for parts like `p`. -/
def adopt (p : Part) (h : Handle) (o : Object) : Object :=
  { o with body := o.body.adopt p h }

/-- The object with an attribute set. -/
def write (name : String) (a : Attribute) (o : Object) : Object :=
  { o with attributes := o.attributes.insert name a }

end Object

end Interconnect
