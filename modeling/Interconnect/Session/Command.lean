import Interconnect.Request.Basic
import Interconnect.Store.Module

/-!
# Commands

Everything that changes a store, as data: the constructors of objects, the writing of
attributes, clearing, and requests.  `Store.exec` carries a command out, and `Reachable`
holds of the stores that commands lead to.
-/

namespace Interconnect

/-- One change to a store. -/
inductive Command where
  | addModule (name : String) (ilm resource : Bool)
  | addInstance (name : String) (module parent : Handle)
  | addPort (module : Handle) (name : String) (direction : PortDirection)
  | addPin (inst : Handle) (name connection : String) (inverted : Bool)
  | addParameter (module : Handle) (name value : String) (isLocal : Bool)
  | addAdjustment (inst : Handle) (name value : String)
  | addDeclaration (module : Handle) (name : String) (defaultType : Bool)
    (assigned : Option String)
  | addCode (module : Handle) (name : Option String) (text : String)
  | addRegfile (module : Handle) (name : String)
  | addEntry (regfile : Handle) (name : String)
  | addRegister (entry : Handle) (name : String)
  | addNet (name : String) (members : List Handle)
  | setAttribute (object : Handle) (name value : String) (constant : Bool)
  | setAttributes (object : Handle) (pairs : List (String × String))
  | clear
  | request (r : Request)

/-- What a command gives back. -/
inductive Answer where
  /-- The object that was created or placed. -/
  | object (h : Handle)
  /-- The objects that a request created. -/
  | objects (hs : List Handle)
  | nothing
  deriving DecidableEq

/-- Why a command fails. -/
inductive Failure where
  | store (e : StoreError)
  | request (e : RequestError)
  deriving DecidableEq

/-- The text of a failure. -/
def Failure.message : Failure → String
  | store e => e.message
  | request e => e.message

namespace Store

/-- The event of a new placement, told from the store before it. -/
def placementEvent (s : Store) (name : String) (module parent : Handle) : Event :=
  let parentName := ((s.object? parent).map Object.name).getD ""
  if (s.module? module).any Module.resource then .resourceInstanceCreated name parentName
  else .defaultInstancePlaced name parentName

/-- The outcome of creating an object, with the events of a success. -/
def creating (s : Store) (r : Except StoreError (Store × Handle)) (events : List Event) :
    Outcome Failure Answer :=
  match r with
  | .ok (s, h) => (Outcome.done s (.object h)).after (events.map .event)
  | .error e => .fail s (.store e)

/-- Carries out a command. -/
def exec (s : Store) : Command → Outcome Failure Answer
  | .addModule name ilm resource =>
    s.creating (s.addModule name ilm resource) [.moduleCreated name ilm resource]
  | .addInstance name module parent =>
    s.creating (s.addInstance name module parent) [s.placementEvent name module parent]
  | .addPort module name direction => s.creating (s.addPort module name direction) []
  | .addPin inst name connection inverted =>
    s.creating (s.addPin inst name connection inverted) []
  | .addParameter module name value isLocal =>
    s.creating (s.addParameter module name value isLocal) []
  | .addAdjustment inst name value => s.creating (s.addAdjustment inst name value) []
  | .addDeclaration module name defaultType assigned =>
    s.creating (s.addDeclaration module name defaultType assigned) []
  | .addCode module name text => s.creating (s.addCode module name text) []
  | .addRegfile module name => s.creating (s.addRegfile module name) []
  | .addEntry regfile name => s.creating (s.addEntry regfile name) []
  | .addRegister entry name => s.creating (s.addRegister entry name) []
  | .addNet name members =>
    s.creating (s.addNet name members) [.netCreated name (distinct members).length]
  | .setAttribute object name value constant =>
    match s.setAttribute object name value constant with
    | .ok s => .done s .nothing
    | .error e => .fail s (.store e)
  | .setAttributes object pairs =>
    match s.setAttributes object pairs with
    | (s, .ok ()) => .done s .nothing
    | (s, .error e) => .fail s (.store e)
  | .clear => (Outcome.done Store.empty .nothing).after [.event (.storeCleared s.size)]
  | .request r => ((r.run s).map .objects).mapError .request

/-- Commands lead to the store from the empty one.  A failed command counts too, with the
store that it leaves behind. -/
inductive Reachable : Store → Prop where
  | empty : Reachable .empty
  | exec {s : Store} (c : Command) : Reachable s → Reachable (s.exec c).store

end Store

end Interconnect
