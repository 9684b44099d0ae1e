import Interconnect.Store.Hierarchy

/-!
# Modules and their placements

A module that is no resource comes into being together with its one instance, which
carries its name and is placed later, at most once.  A resource has no instance of its
own; each of its placements makes a new one.
-/

namespace Interconnect.Store

/-- The attributes that repeat a module's flags. -/
def moduleDetails (ilm resource : Bool) : List (String × String) :=
  [("ilm", flagText ilm), ("resource", flagText resource)]

/-- Creates a resource. -/
def createResource (s : Store) (name : String) (ilm : Bool) : Store × Handle :=
  s.create name name (.module { ilm, resource := true }) (moduleDetails ilm true)

/-- Creates a module that is no resource, and its default instance right after it. -/
def createWithInstance (s : Store) (name : String) (ilm : Bool) : Store × Handle :=
  let h := s.objects.fresh
  let body : Module :=
    { ilm, resource := false, placements := [h + 1], defaultInstance := some (h + 1) }
  let (s, h) := s.create name name (.module body) (moduleDetails ilm false)
  let (s, _) := s.create name name (.inst { module := h, parent := none })
    [("module", Kind.module.objectId name)]
  (s, h)

/-- Creates a module and, unless it is a resource, its default instance. -/
def addModule (s : Store) (name : String) (ilm resource : Bool) :
    Except StoreError (Store × Handle) := do
  if name.isEmpty then throw (.emptyName "module")
  if s.modules.contains name then throw (.nameExists "module" name)
  s.expectFree (Kind.module.objectId name)
  if resource then
    return s.createResource name ilm
  if s.instances.contains name then throw (.nameExists "instance" name)
  s.expectFree (Kind.inst.objectId name)
  return s.createWithInstance name ilm

/-- The module with another instance inside. -/
def addChild (h : Handle) (o : Object) : Object :=
  match o.body with
  | .module m => { o with body := .module { m with children := m.children ++ [h] } }
  | _ => o

/-- The module with another instance of it. -/
def addPlacement (h : Handle) (o : Object) : Object :=
  match o.body with
  | .module m => { o with body := .module { m with placements := m.placements ++ [h] } }
  | _ => o

/-- The instance inside `parent`. -/
def setParent (parent : Handle) (o : Object) : Object :=
  match o.body with
  | .inst i => { o with body := .inst { i with parent := some parent } }
  | _ => o

/-- Puts an instance that exists into `parent`. -/
def place (s : Store) (inst parent : Handle) : Store :=
  ((s.modify inst (setParent parent)).stamp inst "parent" (s.describe parent)).modify parent
    (addChild inst)

/-- Creates an instance of a resource inside `parent`. -/
def createPlacement (s : Store) (name : String) (module parent : Handle) : Store × Handle :=
  let details := [("module", s.describe module), ("parent", s.describe parent)]
  let (s, h) := s.create name name (.inst { module, parent := some parent }) details
  ((s.modify parent (addChild h)).modify module (addPlacement h), h)

/-- Places an instance of `module` inside `parent`: a new one for a resource, and the
default instance otherwise. -/
def addInstance (s : Store) (name : String) (module parent : Handle) :
    Except StoreError (Store × Handle) := do
  if name.isEmpty then throw (.emptyName "instance")
  let (o, m) ← s.expectModule module
  let (p, container) ← s.expectModule parent
  if container.resource then throw (.parentIsResource name p.name)
  if m.resource then
    if s.instances.contains name then throw (.nameExists "instance" name)
    s.expectFree (Kind.inst.objectId name)
    if ← s.wouldCreateCycle module parent then throw (.wouldCreateCycle name p.name)
    return s.createPlacement name module parent
  else
    if name ≠ o.name then throw (.nameMismatch name o.name)
    let some inst := m.defaultInstance | throw (.inconsistent (.noDefaultInstance name))
    let (_, i) ← s.expectInstance inst
    if let some placed := i.parent then throw (.alreadyPlaced name (s.describe placed))
    if ← s.wouldCreateCycle module parent then throw (.wouldCreateCycle name p.name)
    return (s.place inst parent, inst)

end Interconnect.Store
