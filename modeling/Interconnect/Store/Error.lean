import Interconnect.Collection.Arena

/-!
# What can go wrong in a store

A `StoreError` is a refusal that names the offending object.  An `Inconsistency` says that
the objects contradict each other or that an object was used where none of its kind can
stand; no request on a well-built store meets one.
-/

namespace Interconnect

/-- A contradiction among the stored objects. -/
inductive Inconsistency where
  /-- A climb from `start` visited more objects than there are. -/
  | endlessClimb (start : String)
  /-- A climb from `start` met an object that has no place in the hierarchy. -/
  | strayObject (object start : String)
  /-- A module that needs a default instance has none. -/
  | noDefaultInstance (module : String)
  /-- Only ports, pins and declarations join nets. -/
  | notAMember (kind id : String)
  /-- The endpoint of a walk does not exist. -/
  | danglingEndpoint (handle : Handle)
  /-- A walk starts at a module or an instance. -/
  | notWalkable (kind object : String)
  /-- An instance is not of a module. -/
  | notAPlacement (inst : String)
  /-- Only modules and instances are realized. -/
  | notRealizable (request object : String)
  /-- The store refused what a request asked for. -/
  | refused (request reason : String)
  deriving DecidableEq

/-- The text of an inconsistency. -/
def Inconsistency.message : Inconsistency → String
  | endlessClimb start => s!"internal error: hierarchy walk from '{start}' does not terminate"
  | strayObject object start =>
    s!"internal error: unexpected object '{object}' in hierarchy of '{start}'"
  | noDefaultInstance module => s!"internal error: module '{module}' has no default instance"
  | notAMember kind id => s!"internal error: {kind} '{id}' cannot be a net member"
  | danglingEndpoint handle => "internal error: dangling endpoint " ++ handle.text
  | notWalkable kind object => s!"internal error: cannot walk from {kind} '{object}'"
  | notAPlacement inst => s!"internal error: instance '{inst}' refers to a non-module"
  | notRealizable request object => s!"internal error: {request}: cannot realize '{object}'"
  | refused request reason => s!"internal error: {request}: {reason}"

/-- Why a store refuses an operation. -/
inductive StoreError where
  /-- A module or an instance of this name exists. -/
  | nameExists (kind name : String)
  /-- The id of the new object is taken. -/
  | idExists (id : String)
  /-- Nothing is placed inside a resource. -/
  | parentIsResource (inst parent : String)
  /-- The instance of a module that is no resource carries the module's name. -/
  | nameMismatch (inst module : String)
  /-- The default instance has its place already. -/
  | alreadyPlaced (inst parent : String)
  /-- The module would come to contain itself. -/
  | wouldCreateCycle (inst parent : String)
  /-- The attribute is write-protected. -/
  | constantAttribute (id name : String)
  /-- Nothing is stored under the handle. -/
  | unknownObject (shown : String)
  /-- The object is not of the kind that the operation needs. -/
  | wrongType (id expected found : String)
  /-- A resource has no inner content. -/
  | resourceModule (what module : String)
  /-- A net of this name exists. -/
  | netExists (name : String)
  /-- The object is in a net already. -/
  | alreadyInNet (id net : String)
  /-- A name is missing. -/
  | emptyName (what : String)
  /-- The stored objects contradict each other. -/
  | inconsistent (cause : Inconsistency)
  deriving DecidableEq

/-- The text of a refusal. -/
def StoreError.message : StoreError → String
  | nameExists kind name => s!"{kind} '{name}' already exists"
  | idExists id => s!"object id '{id}' already exists"
  | parentIsResource inst parent =>
    s!"cannot place instance '{inst}' inside resource module '{parent}'"
  | nameMismatch inst module =>
    s!"module '{module}' is not a resource, instance name '{inst}' does not match"
  | alreadyPlaced inst parent => s!"instance '{inst}' is already placed in module '{parent}'"
  | wouldCreateCycle inst parent =>
    s!"placing '{inst}' in module '{parent}' would create a hierarchy cycle"
  | constantAttribute id name => s!"attribute '{name}' of '{id}' is constant"
  | unknownObject shown => s!"unknown object '{shown}'"
  | wrongType id expected found => s!"'{id}' is a {found}, expected a {expected}"
  | resourceModule what module => s!"{what} not allowed in resource module '{module}'"
  | netExists name => s!"net '{name}' already exists"
  | alreadyInNet id net => s!"'{id}' is already a member of net '{net}'"
  | emptyName what => s!"empty {what} name"
  | inconsistent cause => cause.message

end Interconnect
