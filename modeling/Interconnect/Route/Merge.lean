import Interconnect.Collection.Ascending
import Interconnect.Route.Tree

/-!
# Merging chains

Chains that start at one root are merged into one tree.  Hops at the same object become
one hop, except that hops with two different names stay apart.  A hop without a name joins
the smallest name there is at its object.  Branches stand in the order of their objects
and, at one object, of their names, so the tree does not depend on the order of the
chains.
-/

namespace Interconnect

/-- The smaller of two names; a missing one yields. -/
def smallerName : Option String → Option String → Option String
  | some a, some b => if b < a then some b else some a
  | none, b => b
  | a, none => a

/-- One hop that does what two hops at the same object ask for. -/
def Hop.absorb (a b : Hop) : Hop :=
  { object := a.object
    heading := a.heading.join b.heading
    name := smallerName a.name b.name
    forced := a.forced || b.forced
    inverted := a.inverted || b.inverted
    explicit := a.explicit || b.explicit
    clash := a.clash || (a.heading.clashes b.heading || b.clash) }

/-- Hops from a root downwards, at least one. -/
structure Chain where
  head : Hop
  tail : List Hop
  deriving DecidableEq

namespace Chain

/-- The chain of some hops, if there are any. -/
def ofHops? : List Hop → Option Chain
  | [] => none
  | head :: tail => some { head, tail }

/-- The chain below the first hop, if it goes on. -/
def below? (c : Chain) : Option Chain :=
  ofHops? c.tail

/-- The chains by the object that they start at, in the order of the objects. -/
def byObject (chains : List Chain) : List (List Chain) :=
  (ascending (chains.map fun c => c.head.object)).map fun object =>
    chains.filter fun c => c.head.object = object

/-- The chains, which start at one object, by the name they give it, in the order of the
names.  A chain that gives none goes with the smallest name. -/
def byName (chains : List Chain) : List (List Chain) :=
  match ascending (chains.filterMap fun c => c.head.name) with
  | [] => [chains]
  | smallest :: others =>
    (smallest :: others).map fun name =>
      chains.filter fun c => c.head.name.getD smallest = name

/-- The chains below the first hops, grouped as they become branches. -/
def groups (chains : List Chain) : List (List Chain) :=
  (byObject (chains.filterMap below?)).flatMap byName

/-- The first hops of some chains as one hop.  Without a name it takes the name of the
request. -/
def jointHop (request : String) (first : Chain) (others : List Chain) : Hop :=
  let hop := others.foldl (fun hop c => hop.absorb c.head) first.head
  { hop with name := some (hop.name.getD request) }

end Chain

/-- Two chains start at different objects. -/
structure NoCommonStart where
  /-- Where the first chain starts. -/
  first : Handle
  /-- Where another one starts. -/
  other : Handle
  deriving DecidableEq

/-- All chains start where the first one does. -/
def Chain.expectCommonStart (first : Chain) (others : List Chain) : Except NoCommonStart Unit :=
  match others.find? fun c => c.head.object ≠ first.head.object with
  | some c => .error { first := first.head.object, other := c.head.object }
  | none => .ok ()

namespace HopTree

/-- The tree of chains that start at one object; without chains there is none.  No chain goes on
for more than `height` hops below its first. -/
def mergeLevel (request : String) : Nat → List Chain → Except NoCommonStart (Option HopTree)
  | _, [] => .ok none
  | 0, first :: others => do
    Chain.expectCommonStart first others
    return some (node (Chain.jointHop request first others) [])
  | height + 1, first :: others => do
    Chain.expectCommonStart first others
    let branches ← (Chain.groups (first :: others)).mapM (mergeLevel request height)
    return some (node (Chain.jointHop request first others) (branches.filterMap id))

/-- The hops below the first of the longest chain. -/
def height (chains : List Chain) : Nat :=
  (chains.map fun c => c.tail.length).foldr max 0

/-- The tree of all chains.  Empty chains do not count, and without any other there is no
tree. -/
def merge (request : String) (chains : List (List Hop)) :
    Except NoCommonStart (Option HopTree) :=
  let chains := chains.filterMap Chain.ofHops?
  mergeLevel request (height chains) chains

end HopTree

end Interconnect
