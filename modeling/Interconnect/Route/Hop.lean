import Interconnect.Route.Heading
import Interconnect.Store.Basic

/-!
# Hops and walks

A walk turns an endpoint into the hops from it up to the root of its hierarchy.  An
instance of a module that is no resource stands for its module.  An instance of a resource
is a hop of its own, and the module it is placed in counts as chosen too.

The endpoint's own hop and the default instance right above it carry what the endpoint
asks for: its name, whether the name is forced, and whether the signal is inverted.
-/

namespace Interconnect

/-- One side of a connection or a parameter. -/
structure Endpoint where
  /-- The module or the instance. -/
  object : Handle
  /-- The name to use at this side; an empty one counts as none. -/
  name : Option String
  /-- Only asked for where nothing else decides the heading. -/
  heading : Heading
  /-- The name is used as it is, without a suffix. -/
  forced : Bool
  /-- The inverted signal is connected. -/
  inverted : Bool
  deriving DecidableEq

namespace Endpoint

/-- An endpoint that asks for nothing. -/
def plain (object : Handle) : Endpoint :=
  { object, name := none, heading := .unset, forced := false, inverted := false }

/-- The name that the endpoint supplies. -/
def givenName (e : Endpoint) : Option String :=
  e.name.filter fun n => !n.isEmpty

end Endpoint

/-- One module or instance on the way. -/
structure Hop where
  object : Handle
  heading : Heading
  /-- The name at this hop, if it is not the name of the request. -/
  name : Option String
  forced : Bool
  inverted : Bool
  /-- The caller chose this hop. -/
  explicit : Bool
  /-- Different headings met here. -/
  clash : Bool
  deriving DecidableEq

/-- Where a walk stands with respect to its endpoint. -/
inductive Stage where
  /-- At the endpoint. -/
  | endpoint
  /-- At the default instance right above the endpoint. -/
  | doorstep
  /-- Farther up, at a hop that the caller chose or not. -/
  | beyond (chosen : Bool)
  deriving DecidableEq

namespace Stage

/-- The stage of the hop above. -/
def above : Stage → Stage
  | endpoint => doorstep
  | doorstep | beyond _ => beyond false

/-- The caller chose the hop. -/
def explicit : Stage → Bool
  | endpoint => true
  | doorstep => false
  | beyond chosen => chosen

/-- The hop carries what the endpoint asks for. -/
def carries : Stage → Bool
  | endpoint | doorstep => true
  | beyond _ => false

end Stage

/-- The hop at `object`, as an endpoint asks for it. -/
def Endpoint.hop (e : Endpoint) (heading : Heading) (object : Handle) (stage : Stage) : Hop :=
  { object
    heading
    name := if stage.carries then e.givenName else none
    forced := stage.carries && e.forced
    inverted := stage.carries && e.inverted
    explicit := stage.explicit
    clash := false }

namespace Store

/-- The hops from `h` up to its root. -/
def ascend (s : Store) (e : Endpoint) (heading : Heading) :
    Nat → Stage → Handle → Except Inconsistency (List Hop)
  | 0, _, _ => .error (.endlessClimb (s.describe e.object))
  | fuel + 1, stage, h =>
    match (s.object? h).bind Object.above? with
    | none => .error (.strayObject (s.describe h) (s.describe e.object))
    | some none => .ok [e.hop heading h stage]
    | some (some upper) =>
      (s.ascend e heading fuel stage.above upper).map (e.hop heading h stage :: ·)

/-- The hops from an endpoint up to the root of its hierarchy. -/
def walk (s : Store) (e : Endpoint) (heading : Heading) : Except Inconsistency (List Hop) :=
  match s.object? e.object with
  | none => .error (.danglingEndpoint e.object)
  | some o =>
    match o.body with
    | .module _ => s.ascend e heading (s.size + 1) .endpoint e.object
    | .inst i =>
      match s.module? i.module with
      | none => .error (.notAPlacement (s.describe e.object))
      | some m =>
        if m.resource then
          let own := e.hop heading e.object .endpoint
          match i.parent with
          | none => .ok [own]
          | some parent => (s.ascend e heading s.size (.beyond true) parent).map (own :: ·)
        else s.ascend e heading (s.size + 1) .endpoint i.module
    | _ => .error (.notWalkable o.kind.name (s.describe e.object))

/-- Remembers the name that an endpoint supplies. -/
def internGivenName (s : Store) (e : Endpoint) : Store :=
  e.givenName.elim s s.intern

/-- Remembers the name at a hop. -/
def internName (s : Store) (hop : Hop) : Store :=
  hop.name.elim s s.intern

/-- Walks from several endpoints, one after the other, and turns each walk round, so that
it starts at the root.  The first walk that fails ends the work. -/
def chains (s : Store) :
    List (Endpoint × Heading) → Store × Except Inconsistency (List (List Hop))
  | [] => (s, .ok [])
  | (e, heading) :: rest =>
    let s := s.internGivenName e
    match s.walk e heading with
    | .error cause => (s, .error cause)
    | .ok hops =>
      let (s, others) := s.chains rest
      (s, others.map (hops.reverse :: ·))

end Store

end Interconnect
