import Interconnect.Store.Outcome
import Interconnect.Request.Plan
import Interconnect.Store.Attribute
import Interconnect.Store.Net
import Interconnect.Store.Part

/-!
# Carrying out a plan

The steps of a plan are carried out one after the other.  A hop whose id is taken is
reported and skipped, and the others still get the objects they ask for.  The objects that
were created are then bound together: those of a signal become a net, and those of a
parameter are tagged with its name.
-/

namespace Interconnect.Store

/-- Carries out the steps on behalf of a request.  The result lists what was created. -/
def carryOut (request : String) : Store → List Step → Outcome Inconsistency (List Handle)
  | s, [] => .done s []
  | s, .report d :: rest => (carryOut request s rest).after [.diagnostic d]
  | s, .stray object :: _ => .fail s (.notRealizable request (s.describe object))
  | s, .create demand clash :: rest =>
    match s.attach demand.owner demand.name demand.part with
    | .ok (s, h) =>
      let id := s.describe h
      let notices := .event (.realized id)
        :: (if clash then [.diagnostic (Report.headingClash request id)] else [])
      ((carryOut request s rest).map (h :: ·)).after notices
    | .error (.idExists id) =>
      (carryOut request s rest).after [.diagnostic (Report.idTaken request id)]
    | .error (.inconsistent cause) => .fail s cause
    | .error e => .fail s (.refused request e.message)

/-- Creates the objects that the hops of a tree ask for. -/
def realize (s : Store) (t : Task) (tree : HopTree) : Outcome Inconsistency (List Handle) :=
  s.carryOut t.request (t.plan s none tree)

/-- Joins the objects of a signal into its net.  Without objects there is no net. -/
def joinObjects (s : Store) (request signal : String) (objects : List Handle) :
    Outcome StoreError (List Handle) :=
  if objects.isEmpty then
    (Outcome.done s []).after [.diagnostic (Report.nothingCreated request)]
  else
    match s.addNet signal objects with
    | .error e => .fail s e
    | .ok (s, net) =>
      (Outcome.done s objects).after
        [.event (.netCreated signal (distinct objects).length),
          .event (.netAggregated (s.describe net) objects.length)]

/-- Tags objects with the name of a parameter, up to the first that refuses. -/
def tagAll (name : String) : Store → List Handle → Outcome StoreError Unit
  | s, [] => .done s ()
  | s, h :: rest =>
    match s.setAttribute h "parameter" name true with
    | .ok s => tagAll name s rest
    | .error e => .fail s e

/-- Tags the objects of a parameter with its name, for good. -/
def tagObjects (s : Store) (request name : String) (objects : List Handle) :
    Outcome StoreError (List Handle) :=
  if objects.isEmpty then
    (Outcome.done s []).after [.diagnostic (Report.nothingCreated request)]
  else
    (tagAll name s objects).andThen fun s _ =>
      (Outcome.done s objects).after [.event (.parameterTagged name objects.length)]

end Interconnect.Store
