import Interconnect.Request.Report
import Interconnect.Route.Naming
import Interconnect.Route.Tree

/-!
# Plans

What the hops of a tree ask for.  A plan is read off the tree and the modules and
instances at its hops; it does not depend on what else is in the store.  Every hop asks
for one object, and hands the name of that object down to its branches: there, a pin
connects to it, and a port or a parameter takes it over.
-/

namespace Interconnect

/-- What a request realizes. -/
inductive Mode where
  /-- A declaration on top, and ports and pins below. -/
  | signal
  /-- Parameters with a default value, and adjustments.  The parameter on top may be local
  to its module. -/
  | parameter (value : String) (isLocal : Bool)
  deriving DecidableEq

/-- What is to be realized along a tree, and on whose behalf. -/
structure Task where
  /-- The request, as diagnostics call it. -/
  request : String
  /-- The name of the signal or the parameter. -/
  name : String
  mode : Mode
  deriving DecidableEq

/-- The part that a hop asks for. -/
structure Demand where
  owner : Handle
  name : String
  part : Part
  deriving DecidableEq

/-- One step of a plan. -/
inductive Step where
  /-- Something is wrong with the hop. -/
  | report (d : Diagnostic)
  /-- The hop gets its object.  With a clash, the object is reported too. -/
  | create (demand : Demand) (clash : Bool)
  /-- The hop is neither a module nor an instance. -/
  | stray (object : Handle)
  deriving DecidableEq

namespace Task

/-- The name at a hop, before suffixes. -/
def nameAt (t : Task) (hop : Hop) : String :=
  hop.name.getD t.name

/-- The name of the object at a hop that names it itself: as it is if the hop forces it,
and with a suffix otherwise. -/
def ownName (t : Task) (hop : Hop) (suffixed : String → String) : String :=
  if hop.forced then t.nameAt hop else suffixed (t.nameAt hop)

/-- The steps for a module, and the name that they give its object.  `above` is the name
that was handed down, unless the module is on top. -/
def atModule (t : Task) (id : String) (m : Module) (above : Option String) (hop : Hop) :
    List Step × String :=
  match t.mode, above with
  | .signal, some name =>
    ([.create ⟨hop.object, name, .port hop.heading.portDirection none⟩ hop.clash], name)
  | .signal, none =>
    let name := t.ownName hop Naming.signalName
    if m.resource then ([.report (Report.resourceContent t.request "declaration" id)], name)
    else ([.create ⟨hop.object, name, .declaration true none none⟩ false], name)
  | .parameter value _, some name =>
    ([.create ⟨hop.object, name, .parameter value false⟩ false], name)
  | .parameter value isLocal, none =>
    let name := t.nameAt hop
    ([.create ⟨hop.object, name, .parameter value isLocal⟩ false], name)

/-- What is wrong with an instance on top. -/
def topInstance (t : Task) (id : String) (above : Option String) : List Step :=
  match above with
  | some _ => []
  | none =>
    (match t.mode with
      | .parameter _ true => [.report (Report.localAtInstance t.request id)]
      | _ => [])
    ++ [.report (Report.unnamedInstance t.request id)]

/-- The steps for an instance, and the name that they give its object. -/
def atInstance (t : Task) (id : String) (above : Option String) (hop : Hop) :
    List Step × String :=
  match t.mode with
  | .signal =>
    let name := t.ownName hop fun n => Naming.pinName n hop.heading
    (t.topInstance id above
      ++ [.create ⟨hop.object, name, .pin (above.getD "") hop.inverted none⟩ hop.clash],
      name)
  | .parameter value _ =>
    let name := t.nameAt hop
    (t.topInstance id above
      ++ [.create ⟨hop.object, name, .adjustment (above.getD value)⟩ false], name)

/-- The steps for one hop, and the name that is handed down. -/
def atHop (t : Task) (s : Store) (above : Option String) (hop : Hop) : List Step × String :=
  match s.object? hop.object with
  | none => ([.stray hop.object], "")
  | some o =>
    match o.body with
    | .module m => t.atModule o.id m above hop
    | .inst _ => t.atInstance o.id above hop
    | _ => ([.stray hop.object], "")

mutual

/-- The steps for a tree, in pre-order. -/
def plan (t : Task) (s : Store) (above : Option String) : HopTree → List Step
  | .node hop branches =>
    (t.atHop s above hop).1 ++ planAll t s (t.atHop s above hop).2 branches

/-- The steps for the branches below a hop. -/
def planAll (t : Task) (s : Store) (above : String) : List HopTree → List Step
  | [] => []
  | branch :: rest => plan t s (some above) branch ++ planAll t s above rest

end

end Task

end Interconnect
